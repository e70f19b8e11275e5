import Demangle.Proofs.Kind
import Demangle.Proofs.Symbol.Depth
import Demangle.Proofs.Text.Escape
import Demangle.Symbol.Dump

/-!
# A dump determines its tree

A dump is read back line by line. A line gives its level, its kind and its payload, for a kind has no blank in
its name and a written text no line feed (`dumpLine_append_inj`). The children of a node are the trees that
follow it up to the first line that stands further left, so a tree is read back in front of any text that does
not go on with one of its children:

    Outdented (level + 1) x → Outdented (level + 1) y →
      dumpAt quote level s ++ x = dumpAt quote level t ++ y → s = t ∧ x = y               (readBack)
-/

namespace Demangle

/-! ## Written texts -/

/-- A way to write texts on one line and in quotes, from which they can be read back. -/
structure Text.Quotes (quote : String → String) : Prop where
  injective : Function.Injective quote
  opens : ∀ s, (quote s).toList.head? = some '"'
  oneLine : ∀ s, '\n' ∉ (quote s).toList

theorem Text.quotes_quote : Text.Quotes Text.quote where
  injective _ _ := quote_inj
  opens s := by rw [toList_quote, List.head?_cons]
  oneLine := newline_not_mem_quote

variable {quote : String → String}

namespace Payload

theorem toList_dump_index (n : UInt64) :
    ((index n).dump quote).toList = ' ' :: '#' :: Nat.toDigits 10 n.toNat := by
  have hdigits : (toString n).toList = Nat.toDigits 10 n.toNat := Nat.toList_repr
  rw [dump, String.toList_append, hdigits]
  rfl

theorem toList_dump_text (s : String) : ((text s).dump quote).toList = ' ' :: (quote s).toList := by
  rw [dump, String.toList_append]
  rfl

/-- Nothing or a blank stands behind the kind. -/
theorem dump_blank (quote : String → String) (p : Payload) :
    ∃ r, (p.dump quote).toList ++ [' '] = ' ' :: r := by
  cases p with
  | none => exact ⟨[], rfl⟩
  | index n => exact ⟨_, by rw [toList_dump_index]; rfl⟩
  | text s => exact ⟨_, by rw [toList_dump_text]; rfl⟩

theorem newline_not_mem_dump (hq : Text.Quotes quote) (p : Payload) : '\n' ∉ (p.dump quote).toList := by
  cases p with
  | none => exact List.not_mem_nil
  | index n =>
    have hdigits : '\n' ∉ Nat.toDigits 10 n.toNat := fun h =>
      absurd (Nat.isDigit_of_mem_toDigits (by decide) (by decide) h) (by decide)
    rw [toList_dump_index]
    simp [hdigits]
  | text s =>
    rw [toList_dump_text]
    simp [hq.oneLine s]

/-- An index and a text differ in the mark behind the blank. -/
theorem index_ne_text (hq : Text.Quotes quote) (n : UInt64) (s : String) :
    ((index n).dump quote).toList ≠ ((text s).dump quote).toList := by
  rw [toList_dump_index, toList_dump_text]
  intro h
  have hopens := hq.opens s
  rw [← (List.cons.inj h).2] at hopens
  cases hopens

theorem dump_inj (hq : Text.Quotes quote) {p p' : Payload}
    (h : (p.dump quote).toList = (p'.dump quote).toList) : p = p' := by
  cases p with
  | none =>
    cases p' with
    | none => rfl
    | index n => rw [toList_dump_index] at h; cases h
    | text s => rw [toList_dump_text] at h; cases h
  | index n =>
    cases p' with
    | none => rw [toList_dump_index] at h; cases h
    | index n' =>
      rw [toList_dump_index, toList_dump_index] at h
      have hvalue := congrArg (Nat.ofDigitChars 10 · 0) (List.cons.inj (List.cons.inj h).2).2
      simp only [Nat.ofDigitChars_ten_toDigits] at hvalue
      rw [UInt64.toNat_inj.mp hvalue]
    | text s => exact absurd h (index_ne_text hq n s)
  | text s =>
    cases p' with
    | none => rw [toList_dump_text] at h; cases h
    | index n => exact absurd h.symm (index_ne_text hq n s)
    | text s' =>
      rw [toList_dump_text, toList_dump_text] at h
      rw [hq.injective (String.toList_inj.mp (List.cons.inj h).2)]

end Payload

namespace Symbol

variable {level : Nat} {x y : List Char}

/-! ## Lines -/

theorem toList_dumpLine (level : Nat) (k : Kind) (p : Payload) (x : List Char) :
    (dumpLine quote level k p).toList ++ x =
      List.replicate (2 * level) ' ' ++ (k.name.toList ++ (p.dump quote).toList) ++ '\n' :: x := by
  simp [dumpLine]

/-- The kind and the payload are read off their part of a line. -/
theorem kind_payload_inj (hq : Text.Quotes quote) {k k' : Kind} {p p' : Payload}
    (h : k.name.toList ++ (p.dump quote).toList = k'.name.toList ++ (p'.dump quote).toList) :
    k = k' ∧ p = p' := by
  obtain ⟨r, hr⟩ := p.dump_blank quote
  obtain ⟨r', hr'⟩ := p'.dump_blank quote
  have hblank : k.name.toList ++ ' ' :: r = k'.name.toList ++ ' ' :: r' := by
    rw [← hr, ← hr', ← List.append_assoc, ← List.append_assoc, h]
  obtain ⟨hname, -⟩ :=
    Text.append_mark_inj (Kind.blank_not_mem_name k) (Kind.blank_not_mem_name k') hblank
  obtain rfl := Kind.name_injective (String.toList_inj.mp hname)
  exact ⟨rfl, Payload.dump_inj hq (List.append_cancel_left h)⟩

theorem newline_not_mem_line (hq : Text.Quotes quote) (level : Nat) (k : Kind) (p : Payload) :
    '\n' ∉ List.replicate (2 * level) ' ' ++ (k.name.toList ++ (p.dump quote).toList) := by
  have hindent : '\n' ∉ List.replicate (2 * level) ' ' := fun h =>
    absurd (List.eq_of_mem_replicate h) (by decide)
  simp only [List.mem_append, not_or]
  exact ⟨hindent, Kind.newline_not_mem_name k, Payload.newline_not_mem_dump hq p⟩

/-- **The first line of a text is read back.** -/
theorem dumpLine_append_inj (hq : Text.Quotes quote) {k k' : Kind} {p p' : Payload}
    (h : (dumpLine quote level k p).toList ++ x = (dumpLine quote level k' p').toList ++ y) :
    k = k' ∧ p = p' ∧ x = y := by
  rw [toList_dumpLine, toList_dumpLine] at h
  obtain ⟨hline, hrest⟩ := Text.append_mark_inj (newline_not_mem_line hq level k p)
    (newline_not_mem_line hq level k' p') h
  obtain ⟨hk, hp⟩ := kind_payload_inj hq (List.append_cancel_left hline)
  exact ⟨hk, hp, hrest⟩

/-! ## Levels -/

/-- The text does not go on with a line of the given level or a deeper one. -/
def Outdented (level : Nat) (x : List Char) : Prop :=
  ¬List.replicate (2 * level) ' ' <+: x

theorem outdented_nil (level : Nat) : Outdented (level + 1) [] := by
  intro h
  have hlength := h.length_le
  rw [List.length_replicate, List.length_nil] at hlength
  omega

theorem replicate_succ_level (level : Nat) :
    List.replicate (2 * (level + 1)) ' ' = List.replicate (2 * level) ' ' ++ [' ', ' '] := by
  rw [Nat.mul_succ, List.replicate_add]
  rfl

theorem Outdented.succ (h : Outdented level x) : Outdented (level + 1) x := by
  intro hdeeper
  rw [replicate_succ_level] at hdeeper
  exact h ((List.prefix_append _ _).trans hdeeper)

/-- A line stands at its level, not at a deeper one. -/
theorem outdented_line (level : Nat) (k : Kind) (p : Payload) (x : List Char) :
    Outdented (level + 1) ((dumpLine quote level k p).toList ++ x) := by
  obtain ⟨c, cs, hname⟩ := List.exists_cons_of_ne_nil (Kind.name_ne_nil k)
  have hblank := Kind.blank_not_mem_name k
  intro h
  rw [replicate_succ_level, toList_dumpLine, List.append_assoc, List.prefix_append_right_inj, hname] at h
  rw [hname] at hblank
  exact hblank ((List.cons_prefix_cons.mp h).1 ▸ List.mem_cons_self)

theorem toList_dumpAt (level : Nat) (s : Symbol) : (dumpAt quote level s).toList =
    (dumpLine quote level s.kind s.payload).toList ++ (dumpAll quote (level + 1) s.children).toList := by
  cases s
  rw [dumpAt, String.toList_append]

theorem toList_dumpAll_cons (level : Nat) (c : Symbol) (cs : List Symbol) :
    (dumpAll quote level (c :: cs)).toList =
      (dumpAt quote level c).toList ++ (dumpAll quote level cs).toList := by
  rw [dumpAll, String.toList_append]

theorem not_outdented_dumpAll (quote : String → String) (level : Nat) (c : Symbol) (cs : List Symbol)
    (x : List Char) : ¬Outdented level ((dumpAll quote level (c :: cs)).toList ++ x) := by
  rw [toList_dumpAll_cons, toList_dumpAt, List.append_assoc, List.append_assoc, toList_dumpLine,
    List.append_assoc]
  exact fun h => h (List.prefix_append _ _)

/-- Trees of one level are not followed by a child of theirs. -/
theorem outdented_dumpAll (hx : Outdented level x) (cs : List Symbol) :
    Outdented (level + 1) ((dumpAll quote level cs).toList ++ x) := by
  cases cs with
  | nil => exact hx.succ
  | cons c cs =>
    rw [toList_dumpAll_cons, toList_dumpAt, List.append_assoc, List.append_assoc]
    exact outdented_line level c.kind c.payload _

/-! ## Trees -/

/-- The tree is read back in front of any text that does not go on with one of its children. -/
def ReadBack (quote : String → String) (s : Symbol) : Prop :=
  ∀ (level : Nat) (t : Symbol) (x y : List Char), s.Exact → t.Exact →
    Outdented (level + 1) x → Outdented (level + 1) y →
    (dumpAt quote level s).toList ++ x = (dumpAt quote level t).toList ++ y → s = t ∧ x = y

/-- Trees of one level are read back if each of them is. -/
theorem readBack_all {cs : List Symbol} (hcs : ∀ c ∈ cs, ReadBack quote c) :
    ∀ {level : Nat} {ds : List Symbol} {x y : List Char}, (∀ c ∈ cs, c.Exact) → (∀ d ∈ ds, d.Exact) →
      Outdented level x → Outdented level y →
      (dumpAll quote level cs).toList ++ x = (dumpAll quote level ds).toList ++ y → cs = ds ∧ x = y := by
  induction cs with
  | nil =>
    intro level ds x y _ _ hx hy h
    cases ds with
    | nil => exact ⟨rfl, h⟩
    | cons d ds =>
      have hline := not_outdented_dumpAll quote level d ds y
      rw [← h] at hline
      exact absurd hx hline
  | cons c cs ih =>
    intro level ds x y hexact hexact' hx hy h
    cases ds with
    | nil =>
      have hline := not_outdented_dumpAll quote level c cs x
      rw [h] at hline
      exact absurd hy hline
    | cons d ds =>
      obtain ⟨hc, hrest⟩ := List.forall_mem_cons.mp hcs
      obtain ⟨hcexact, hcsexact⟩ := List.forall_mem_cons.mp hexact
      obtain ⟨hdexact, hdsexact⟩ := List.forall_mem_cons.mp hexact'
      rw [toList_dumpAll_cons, toList_dumpAll_cons, List.append_assoc, List.append_assoc] at h
      obtain ⟨rfl, htail⟩ := hc level d _ _ hcexact hdexact (outdented_dumpAll hx cs)
        (outdented_dumpAll hy ds) h
      obtain ⟨rfl, hxy⟩ := ih hrest hcsexact hdsexact hx hy htail
      exact ⟨rfl, hxy⟩

/-- An exact tree is determined by its kind, its payload and its children. -/
theorem Exact.eq_of_parts {s t : Symbol} (hs : s.Exact) (ht : t.Exact) (hkind : s.kind = t.kind)
    (hpayload : s.payload = t.payload) (hchildren : s.children = t.children) : s = t := by
  have hdepth : s.depth = t.depth := by rw [hs.depth_eq, ht.depth_eq, hchildren]
  cases s
  cases t
  simp_all

/-- **Every tree is read back from its dump.** -/
theorem readBack (hq : Text.Quotes quote) (s : Symbol) : ReadBack quote s := by
  induction s using treeInduction with
  | step s ih =>
    intro level t x y hs ht hx hy h
    rw [toList_dumpAt, toList_dumpAt, List.append_assoc, List.append_assoc] at h
    obtain ⟨hkind, hpayload, hbelow⟩ := dumpLine_append_inj hq h
    obtain ⟨hchildren, hxy⟩ := readBack_all ih (fun c hc => hs.child hc) (fun d hd => ht.child hd)
      hx hy hbelow
    exact ⟨hs.eq_of_parts ht hkind hpayload hchildren, hxy⟩

theorem dumpWith_inj (hq : Text.Quotes quote) {s t : Symbol} (hs : s.Exact) (ht : t.Exact)
    (h : s.dumpWith quote = t.dumpWith quote) : s = t := by
  have hlists : (dumpAt quote 0 s).toList ++ [] = (dumpAt quote 0 t).toList ++ [] :=
    congrArg (· ++ []) (congrArg String.toList h)
  exact (readBack hq s 0 t [] [] hs ht (outdented_nil 0) (outdented_nil 0) hlists).1

/-- **A dump determines its tree**: exact trees with the same dump are the same, and so they are whatever way
there is to write their texts on one line and read them back. -/
theorem dump_determines_tree {s t : Symbol} (hs : s.Exact) (ht : t.Exact) :
    (s.dump = t.dump → s = t) ∧
    ∀ quote : String → String, Text.Quotes quote → s.dumpWith quote = t.dumpWith quote → s = t := by
  refine ⟨fun h => ?_, fun quote hq h => ?_⟩
  · exact dumpWith_inj Text.quotes_quote hs ht h
  · exact dumpWith_inj hq hs ht h

/-- A text that goes on like the line of a child is not taken for that child. -/
theorem dump_determines_tree_lines :
    let s := ofText .identifier "a\"\n  Identifier \"b"
    let t := make .identifier (.text "a") [ofText .identifier "b"]
    s.Exact ∧ t.Exact ∧ s.dump ≠ t.dump ∧ s.dumpWith Text.quote ≠ t.dumpWith Text.quote := by
  intro s t
  have hs : s.Exact := exact_ofText _ _
  have ht : t.Exact := exact_make (List.forall_mem_singleton.mpr (exact_ofText _ _))
  have hne : s ≠ t := fun h => absurd (congrArg children h) (List.cons_ne_nil _ _).symm
  obtain ⟨hdump, hquoted⟩ := dump_determines_tree hs ht
  exact ⟨hs, ht, fun h => hne (hdump h), fun h => hne (hquoted Text.quote Text.quotes_quote h)⟩

end Symbol

end Demangle
