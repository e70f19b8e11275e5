import Demangle.Proofs.Faults
import Demangle.Proofs.Operator.Stop
import Demangle.Proofs.Progress

/-!
# An unmangled suffix

A full stop starts what is left unmangled at the end of a name. The operators in front of it do what they
do at the end of the input (`alike_operators`), so the suffix is one operand more, on top of those that the
name leaves without it (`operandsLeft`). The fold then finds no function attribute on top and makes all
operands children of the root, in the order in which they were pushed:

    decode (s ++ "." ++ x) = .ok (node .global ((operandsLeft s).reverse.map content ++ [suffix]))

Without a function attribute on top this is the root of `s` with one more child. The exception is a name
that ends in a segment of one digit, whose length is read together with that digit in front of the full
stop; there the name with a suffix can be too short for its last segment.
-/

namespace Demangle

/-- The state after a suffix. -/
def State.suffixed (s : State) (more : List Cell) : State :=
  { s with
    cursor := (s.cursor.followed more).advance (more.length + 1)
    operands := .ofText .suffix (Cell.text (Cell.stop :: more)) :: s.operands }

namespace Decode

open Symbol

/-! ## The run -/

/-- **An operator other than a full stop** does the same at the end of the input and in front of a full
stop, unless it reads too far. A full stop takes all that is left. -/
theorem alike_operator {s s' : State} {x : Symbol} (h : operator s = .ok x s') :
    x.kind = .suffix ∧ s'.cursor.rest = [] ∨
      (∀ more, operator (s.followed more) = .ok x (s'.followed more)) ∨ Overreads operator s s' := by
  by_cases hstop : s.cursor.rest.head?.map Cell.letter = some '.'
  · obtain ⟨o, t, ho, h⟩ := bind_eq_ok h
    cases ho
    rw [hstop] at h
    obtain ⟨text, u, hu, h⟩ := bind_eq_ok h
    cases h
    obtain ⟨d, hd, rfl⟩ := lift_eq_ok hu
    cases hd
    exact .inl ⟨rfl, List.drop_length⟩
  · refine .inr (alike_peek? h nofun fun c hc => ?_)
    have hdot : (c == '.') = false := by
      rw [beq_eq_false_iff_ne]
      rintro rfl
      exact hstop hc
    dsimp only
    rw [hdot]
    split
    · infer_instance
    split
    · next hfalse => cases hfalse
    split
    · infer_instance
    split
    · next run hrun =>
      have := endsAlike_operator? hrun
      infer_instance
    · infer_instance

/-- The full stop and what follows it become an operand. -/
theorem operator_stop {s : State} {more : List Cell} (h : s.cursor.rest = Cell.stop :: more) :
    operator s = .ok (.ofText .suffix (Cell.text (Cell.stop :: more)))
      { s with cursor := s.cursor.advance (more.length + 1) } := by
  have hpeek : Scan.peek? s.cursor = .ok (some '.') s.cursor := Scan.peek?_ascii (by decide) h
  have hrest : Scan.remainder s.cursor = .ok (Cell.text (Cell.stop :: more))
      (s.cursor.advance (more.length + 1)) := by
    unfold Scan.remainder
    rw [h]
    rfl
  unfold operator
  rw [bind_ok (lift_ok hpeek)]
  exact bind_ok (lift_ok hrest) _

theorem operators_stop {s : State} (h : s.cursor.rest = []) (more : List Cell) (n : Nat) :
    operators (n + 1) (s.followed more) = .ok () (s.suffixed more) := by
  have hrest : (s.followed more).cursor.rest = Cell.stop :: more := s.cursor.rest_followed_nil h more
  have hturn : Turn (s.followed more) (s.suffixed more) := by
    refine ⟨by rw [hrest]; exact List.cons_ne_nil _ _, _, _, operator_stop hrest, ?_, rfl⟩
    show 1 ≤ nestingLimit
    decide
  rw [operators_turn hturn]
  refine operators_done ?_ n
  show ((s.followed more).cursor.advance (more.length + 1)).rest = []
  simp only [Cursor.advance, hrest]
  exact List.drop_length (l := Cell.stop :: more)

/-- A run that goes on to the full stop and takes what follows it as a suffix. -/
structure RunsAlike (s s' : State) : Prop where
  run : ∀ more n, (s.followed more).cursor.rest.length ≤ n →
    operators n (s.followed more) = .ok () (s'.suffixed more)

/-- A run whose last operator reads too far. -/
structure RunOverreads (s : State) : Prop where
  teen : EndsInTeen s.cursor.rest
  ended : ∀ n, (s.followed []).cursor.rest.length ≤ n →
    ∃ position t, operators n (s.followed []) = .error ⟨.ended, position⟩ t

theorem length_followed (s : State) (more : List Cell) :
    (s.followed more).cursor.rest.length = s.cursor.rest.length + (more.length + 1) := by
  simp only [State.followed, Cursor.followed, List.length_append, List.length_cons]

theorem runsAlike_done {s : State} (h : s.cursor.rest = []) : RunsAlike s s where
  run more n hn := by
    rw [length_followed] at hn
    obtain ⟨n, rfl⟩ : ∃ m, n = m + 1 := ⟨n - 1, by omega⟩
    exact operators_stop h more n

/-- A turn that does the same leaves the rest to the turns after it. -/
theorem Turn.alike {s t s' : State} (hlt : t.cursor.rest.length < s.cursor.rest.length)
    (hreach : s.cursor.Reaches t.cursor) (hturn : ∀ more, Turn (s.followed more) (t.followed more))
    (h : RunsAlike t s' ∨ RunOverreads t) : RunsAlike s s' ∨ RunOverreads s := by
  have hstep (more : List Cell) {n : Nat} (hn : (s.followed more).cursor.rest.length ≤ n) :
      ∃ m, (t.followed more).cursor.rest.length ≤ m ∧
        operators n (s.followed more) = operators m (t.followed more) := by
    rw [length_followed] at hn
    obtain ⟨n, rfl⟩ : ∃ m, n = m + 1 := ⟨n - 1, by omega⟩
    refine ⟨n, ?_, operators_turn (hturn more) n⟩
    rw [length_followed]
    omega
  rcases h with h | h
  · refine .inl ⟨fun more n hn => ?_⟩
    obtain ⟨m, hm, heq⟩ := hstep more hn
    exact heq.trans (h.run more m hm)
  · refine .inr ⟨h.teen.of_reaches hreach, fun n hn => ?_⟩
    obtain ⟨m, hm, heq⟩ := hstep [] hn
    obtain ⟨position, u, hu⟩ := h.ended m hm
    exact ⟨position, u, heq.trans hu⟩

/-- **The operators of a name do the same in front of a suffix**, which is one operand more, unless the last
one reads too far. -/
theorem alike_operators {n : Nat} : ∀ {s s' : State} {u : Unit}, s.cursor.rest.length ≤ n →
    operators n s = .ok u s' → (∀ x ∈ s'.operands.head?, x.kind ≠ .suffix) →
    RunsAlike s s' ∨ RunOverreads s := by
  induction n with
  | zero =>
    intro s s' u hn h _
    cases h
    exact .inl (runsAlike_done (List.length_eq_zero_iff.mp (Nat.le_zero.mp hn)))
  | succ n ih =>
    intro s s' u hn h htop
    rcases operators_cases h with ⟨hrest, rfl⟩ | ⟨t, ⟨hne, x, t, hx, hdepth, rfl⟩, h⟩
    · exact .inl (runsAlike_done hrest)
    have hlt := readsByte_operator.shorter hx
    rcases alike_operator hx with ⟨hsuffix, hrest⟩ | halike | ⟨hteen, -, position, v, hended⟩
    · cases (operators_done (s := { t with operands := x :: t.operands }) hrest n).symm.trans h
      exact absurd hsuffix (htop x rfl)
    · have hrest : t.cursor.rest.length ≤ n := by omega
      have hreach := operates_operator.toLooksAhead.reaches hx
      refine Turn.alike (t := { t with operands := x :: t.operands }) hlt hreach (fun more => ?_)
        (ih hrest h htop)
      refine ⟨?_, x, _, halike more, hdepth, rfl⟩
      exact List.append_ne_nil_of_left_ne_nil hne _
    · refine .inr ⟨hteen, fun m hm => ?_⟩
      rw [length_followed] at hm
      obtain ⟨m, rfl⟩ : ∃ k, m = k + 1 := ⟨m - 1, by omega⟩
      rw [operators, bind_ok (lift_ok (Scan.isAtEnd_of_ne (List.append_ne_nil_of_left_ne_nil hne _)))]
      exact ⟨position, v, bind_error hended _⟩

/-! ## The fold -/

/-- What an operand is as a child of the root: a type is replaced by what it holds. -/
def content (x : Symbol) : Symbol :=
  if x.kind == .type then x.first?.getD x else x

/-- The operand is no empty type. -/
def Opens (x : Symbol) : Prop :=
  x.kind = .type → x.first? ≠ none

theorem openType_eq_ok {x y : Symbol} {s s' : State} (h : openType x s = .ok y s') :
    y = content x ∧ s' = s ∧ Opens x := by
  unfold openType at h
  unfold content Opens
  split at h
  · next hk =>
    obtain ⟨hfirst, rfl⟩ := require_eq_ok h
    rw [if_pos hk, hfirst]
    exact ⟨rfl, rfl, nofun⟩
  · next hk =>
    cases h
    rw [if_neg hk]
    exact ⟨rfl, rfl, fun htype => absurd (beq_iff_eq.mpr htype) hk⟩

theorem openType_eval {x : Symbol} (h : Opens x) (s : State) : openType x s = .ok (content x) s := by
  unfold openType content
  split
  · next hk =>
    obtain ⟨y, hy⟩ := Option.ne_none_iff_exists'.mp (h (beq_iff_eq.mp hk))
    rw [hy]
    rfl
  · rfl

theorem mapM_openType_eq_ok {xs ys : List Symbol} {s s' : State}
    (h : xs.mapM openType s = .ok ys s') : ys = xs.map content ∧ s' = s ∧ ∀ x ∈ xs, Opens x := by
  induction xs generalizing ys s s' with
  | nil =>
    cases h
    exact ⟨rfl, rfl, nofun⟩
  | cons x xs ih =>
    rw [List.mapM_cons] at h
    obtain ⟨y, t, hy, h⟩ := bind_eq_ok h
    obtain ⟨zs, u, hzs, h⟩ := bind_eq_ok h
    cases h
    obtain ⟨rfl, rfl, hx⟩ := openType_eq_ok hy
    obtain ⟨rfl, rfl, hxs⟩ := ih hzs
    exact ⟨rfl, rfl, List.forall_mem_cons.mpr ⟨hx, hxs⟩⟩

theorem mapM_openType_eval {xs : List Symbol} (h : ∀ x ∈ xs, Opens x) (s : State) :
    xs.mapM openType s = .ok (xs.map content) s := by
  induction xs with
  | nil => rfl
  | cons x xs ih =>
    obtain ⟨hx, hxs⟩ := List.forall_mem_cons.mp h
    rw [List.mapM_cons, bind_ok (openType_eval hx s), bind_ok (ih hxs)]
    rfl

/-- Children that are pushed one after the other. -/
theorem foldl_push (k : Kind) (cs ds : List Symbol) :
    ds.foldl Symbol.push (node k cs) = node k (cs ++ ds) := by
  induction ds generalizing cs with
  | nil => rw [List.foldl_nil, List.append_nil]
  | cons d ds ih =>
    have hpush : (node k cs).push d = node k (cs ++ [d]) := push_eq_make rfl d
    rw [List.foldl_cons, hpush, ih, List.append_assoc]
    rfl

/-- **What a fold makes** of the operands: the root, from those below the attributes on top. -/
theorem fold_eq_ok {s s' : State} {root : Symbol} (h : fold s = .ok root s') :
    let attributes := s.operands.takeWhile fun x => x.kind.isFunctionAttribute
    let rest := s.operands.dropWhile fun x => x.kind.isFunctionAttribute
    (∀ x ∈ rest, Opens x) ∧ root.depth ≤ nestingLimit ∧
      ∃ level outer, attributes.foldl addAttribute [.leaf .global] = level :: outer ∧
        root = closeLevels ((rest.reverse.map content).foldl Symbol.push level) outer := by
  obtain ⟨attributes, t, ht, h⟩ := bind_eq_ok h
  cases ht
  obtain ⟨operands, u, hu, h⟩ := bind_eq_ok h
  cases hu
  obtain ⟨rest, v, hv, h⟩ := bind_eq_ok h
  obtain ⟨rfl, rfl, hopens⟩ := mapM_openType_eq_ok hv
  refine ⟨fun x hx => hopens x (List.mem_reverse.mpr hx), ?_⟩
  generalize hlevels : List.foldl addAttribute _ _ = levels at h
  cases levels with
  | nil => cases h
  | cons level outer =>
    obtain ⟨⟨⟩, w, hw, h⟩ := bind_eq_ok h
    obtain ⟨-, rfl⟩ := ensure_eq_ok hw
    obtain ⟨⟨⟩, w, hw, h⟩ := bind_eq_ok h
    obtain ⟨hdepth, rfl⟩ := ensure_eq_ok hw
    cases h
    exact ⟨of_decide_eq_true hdepth, level, outer, rfl, rfl⟩

/-! ### Depths

The root is deeper than all operands that are below it, attributes included. -/

theorem depth_closeLevels_mono {l l' : Symbol} (h : l.depth ≤ l'.depth) (outer : List Symbol) :
    (closeLevels l outer).depth ≤ (closeLevels l' outer).depth := by
  induction outer generalizing l l' with
  | nil => exact h
  | cons o outer ih =>
    refine ih ?_
    show max o.depth (l.depth + 1) ≤ max o.depth (l'.depth + 1)
    omega

theorem depth_le_closeLevels (l : Symbol) (outer : List Symbol) :
    l.depth ≤ (closeLevels l outer).depth := by
  induction outer generalizing l with
  | nil => exact Nat.le_refl _
  | cons o outer ih =>
    refine Nat.le_trans ?_ (ih (o.push l))
    show l.depth ≤ max o.depth (l.depth + 1)
    omega

/-- An attribute that opens a level is closed into the level around it. -/
theorem addAttribute_closed (level : Symbol) (outer : List Symbol) (x : Symbol) :
    ∃ level' outer', addAttribute (level :: outer) x = level' :: outer' ∧
      closeLevels level' outer' = closeLevels (level.push x) outer := by
  unfold addAttribute
  split
  · exact ⟨_, _, rfl, rfl⟩
  · exact ⟨_, _, rfl, rfl⟩

theorem depth_attributes {attributes : List Symbol} :
    ∀ {level level' : Symbol} {outer outer' : List Symbol},
    attributes.foldl addAttribute (level :: outer) = level' :: outer' →
    (closeLevels level outer).depth ≤ (closeLevels level' outer').depth ∧
      ∀ a ∈ attributes, a.depth < (closeLevels level' outer').depth := by
  induction attributes with
  | nil =>
    intro level level' outer outer' h
    cases h
    exact ⟨Nat.le_refl _, nofun⟩
  | cons a attributes ih =>
    intro level level' outer outer' h
    obtain ⟨level₁, outer₁, hadd, hclosed⟩ := addAttribute_closed level outer a
    rw [List.foldl_cons, hadd] at h
    obtain ⟨hle, hlt⟩ := ih h
    rw [hclosed] at hle
    have hlevel : (closeLevels level outer).depth ≤ (closeLevels (level.push a) outer).depth :=
      depth_closeLevels_mono (Nat.le_max_left _ _) outer
    have ha : a.depth < (closeLevels (level.push a) outer).depth :=
      Nat.lt_of_lt_of_le (Nat.le_max_right level.depth _) (depth_le_closeLevels (level.push a) outer)
    exact ⟨Nat.le_trans hlevel hle,
      List.forall_mem_cons.mpr ⟨Nat.lt_of_lt_of_le ha hle, hlt⟩⟩

theorem depth_foldl_push (ds : List Symbol) : ∀ level : Symbol,
    level.depth ≤ (ds.foldl Symbol.push level).depth ∧
      ∀ d ∈ ds, d.depth < (ds.foldl Symbol.push level).depth := by
  induction ds with
  | nil => exact fun _ => ⟨Nat.le_refl _, nofun⟩
  | cons d ds ih =>
    intro level
    obtain ⟨hle, hlt⟩ := ih (level.push d)
    refine ⟨Nat.le_trans (Nat.le_max_left _ _) hle, List.forall_mem_cons.mpr ⟨?_, hlt⟩⟩
    exact Nat.lt_of_lt_of_le (Nat.le_max_right level.depth _) hle

theorem depth_node_le {k : Kind} {cs : List Symbol} {n : Nat} (h : ∀ c ∈ cs, c.depth < n + 1) :
    (node k cs).depth ≤ n + 1 := by
  have hmax : maxDepth cs ≤ n := by
    induction cs with
    | nil => exact Nat.zero_le n
    | cons c cs ih =>
      obtain ⟨hc, hcs⟩ := List.forall_mem_cons.mp h
      exact Nat.max_le.mpr ⟨Nat.le_of_lt_succ hc, ih hcs⟩
  show 1 + maxDepth cs ≤ n + 1
  omega

theorem content_of_ne {x : Symbol} (h : x.kind ≠ .type) : content x = x :=
  if_neg (by simpa using h)

theorem ne_type_of_attribute {x : Symbol} (h : x.kind.isFunctionAttribute = true) : x.kind ≠ .type := by
  intro hk
  rw [hk] at h
  cases h

/-- All operands can be opened, and are less deep than the root. -/
theorem fold_operands {s s' : State} {root : Symbol} (h : fold s = .ok root s') :
    ∀ x ∈ s.operands, Opens x ∧ (content x).depth < root.depth := by
  obtain ⟨hopens, -, level, outer, hlevels, rfl⟩ := fold_eq_ok h
  obtain ⟨-, hattributes⟩ := depth_attributes hlevels
  obtain ⟨hlevel, hrest⟩ := depth_foldl_push
    ((s.operands.dropWhile fun x => x.kind.isFunctionAttribute).reverse.map content) level
  intro x hx
  rw [← List.takeWhile_append_dropWhile (p := fun x : Symbol => x.kind.isFunctionAttribute)
    (l := s.operands), List.mem_append] at hx
  rcases hx with hx | hx
  · have hk := ne_type_of_attribute
      (List.mem_takeWhile_imp (p := fun x : Symbol => x.kind.isFunctionAttribute) hx)
    refine ⟨fun htype => absurd htype hk, ?_⟩
    rw [content_of_ne hk]
    exact Nat.lt_of_lt_of_le (hattributes x hx) (depth_closeLevels_mono hlevel outer)
  · refine ⟨hopens x hx, Nat.lt_of_lt_of_le (hrest _ ?_) (depth_le_closeLevels _ outer)⟩
    exact List.mem_map.mpr ⟨x, List.mem_reverse.mpr hx, rfl⟩

theorem noAttributes {operands : List Symbol}
    (h : ∀ x ∈ operands.head?, x.kind.isFunctionAttribute = false) :
    (operands.takeWhile fun x => x.kind.isFunctionAttribute) = [] ∧
      (operands.dropWhile fun x => x.kind.isFunctionAttribute) = operands := by
  cases operands with
  | nil => exact ⟨rfl, rfl⟩
  | cons x xs =>
    have hx := h x rfl
    simp [hx]

/-- Without an attribute on top, the operands are the children of the root. -/
theorem fold_plain {s s' : State} {root : Symbol} (h : fold s = .ok root s')
    (htop : ∀ x ∈ s.operands.head?, x.kind.isFunctionAttribute = false) :
    root = node .global (s.operands.reverse.map content) := by
  obtain ⟨-, -, level, outer, hlevels, rfl⟩ := fold_eq_ok h
  obtain ⟨htake, hdrop⟩ := noAttributes htop
  rw [htake] at hlevels
  cases hlevels
  rw [hdrop]
  exact foldl_push .global [] _

/-- Operands without an attribute on top fold to the root of which they are the children. -/
theorem fold_eval {s : State} {x : Symbol} {xs : List Symbol} (hs : s.operands = x :: xs)
    (hx : x.kind.isFunctionAttribute = false) (hopens : ∀ y ∈ x :: xs, Opens y)
    (hdepth : (node .global ((x :: xs).reverse.map content)).depth ≤ nestingLimit) :
    fold s = .ok (node .global ((x :: xs).reverse.map content)) { s with operands := [] } := by
  have hall : popAll s = .ok (x :: xs) { s with operands := [] } := by rw [← hs]; rfl
  have hmap := mapM_openType_eval (fun y hy => hopens y (List.mem_reverse.mp hy))
    { s with operands := [] }
  have hempty : ((x :: xs).reverse.map content).isEmpty = false := by simp
  generalize (x :: xs).reverse.map content = cs at hdepth hmap hempty ⊢
  have hroot : cs.foldl Symbol.push (leaf .global) = node .global cs := foldl_push .global [] cs
  have hcheck : checkDepth (node .global cs) { s with operands := [] } =
      .ok () { s with operands := [] } := by
    unfold checkDepth ensure
    rw [decide_eq_true hdepth]
    rfl
  have hensure : ensure (!(node .global cs).children.isEmpty) { s with operands := [] } =
      .ok () { s with operands := [] } := by
    unfold ensure
    rw [show (node .global cs).children.isEmpty = false from hempty]
    rfl
  unfold fold
  rw [bind_ok (popWhile_none hs hx), bind_ok hall, bind_ok hmap]
  simp only [List.foldl_nil, closeLevels, hroot]
  rw [bind_ok hensure]
  exact bind_ok hcheck _

/-- **A suffix on top** keeps the fold from finding attributes, and is the last child of the root. -/
theorem fold_suffixed {s s' : State} {root : Symbol} (h : fold s = .ok root s') (more : List Cell) :
    ∃ t, fold (s.suffixed more) = .ok (node .global (s.operands.reverse.map content ++
      [.ofText .suffix (Cell.text (Cell.stop :: more))])) t := by
  have hoperands := fold_operands h
  obtain ⟨-, hdepth, -⟩ := fold_eq_ok h
  have hcontent : (ofText .suffix (Cell.text (Cell.stop :: more)) :: s.operands).reverse.map content =
      s.operands.reverse.map content ++ [ofText .suffix (Cell.text (Cell.stop :: more))] := by
    rw [List.reverse_cons, List.map_append]
    rfl
  rw [← hcontent]
  refine ⟨_, fold_eval rfl rfl (List.forall_mem_cons.mpr ⟨nofun, fun x hx => (hoperands x hx).1⟩) ?_⟩
  rw [hcontent]
  refine depth_node_le fun c hc => ?_
  rcases List.mem_append.mp hc with hc | hc
  · obtain ⟨x, hx, rfl⟩ := List.mem_map.mp hc
    exact Nat.lt_of_lt_of_le (hoperands x (List.mem_reverse.mp hx)).2 hdepth
  · rw [List.mem_singleton.mp hc]
    show 1 < nestingLimit
    decide

/-! ## Whole names -/

/-- The operands that are left when all operators of a name have run, the top one first. -/
def operandsLeft (mangled : String) : List Symbol :=
  match (do readStart starts; operators (← Scan.remaining) : Decode Unit) (.ofString mangled) with
  | .ok _ s => s.operands
  | .error _ _ => []

/-- The state behind the start of a name. -/
def behindStart (start : String) (legacy : Bool) (mangled : String) : State :=
  { State.ofString mangled with
    cursor := (Cursor.ofString mangled).advance start.utf8ByteSize, legacyLabels := legacy }

section Names

variable {start m : String} {legacy : Bool} (h : (start, legacy) ∈ starts)

include h

theorem readStart_behind : readStart starts (.ofString (start ++ m)) =
    .ok () (behindStart start legacy (start ++ m)) := by
  have hprefix : start.toList <+: (start ++ m).toList := prefix_iff_append.mpr ⟨m, rfl⟩
  rcases readStart_cases (m := start ++ m) known_of_mem_starts with ⟨e, he, hm, hread⟩ | ⟨hnone, -⟩
  · have hsame : ∀ e ∈ starts, ∀ e' ∈ starts, e.1 = e'.1 → e = e' := by decide
    have hstart := start_unique (known_of_mem_starts e he) (known_of_mem_starts _ h) hm hprefix
    obtain rfl := hsame e he _ h hstart
    exact hread
  · exact absurd hprefix (hnone _ h)

theorem symbol_behind : symbol (.ofString (start ++ m)) =
    afterStart (behindStart start legacy (start ++ m)) := by
  have hprefix : start.toList <+: (start ++ m).toList := prefix_iff_append.mpr ⟨m, rfl⟩
  have hbridged : "_Tt" ∈ knownStarts := by decide
  have hmiss : Scan.acceptText "_Tt" (.ofString (start ++ m)) = .ok false (.ofString (start ++ m)) := by
    rcases acceptText_start (m := start ++ m) hbridged with ⟨hm, -⟩ | ⟨-, hread⟩
    · have hne : ∀ e ∈ starts, e.1 ≠ "_Tt" := by decide
      exact absurd (start_unique (known_of_mem_starts _ h) hbridged hprefix hm) (hne _ h)
    · exact hread
  unfold symbol
  rw [bind_ok (lift_ok (s := .ofString (start ++ m)) hmiss)]
  exact bind_ok (readStart_behind h) _

theorem operandsLeft_eq {s : State} {u : Unit}
    (hrun : operators (behindStart start legacy (start ++ m)).cursor.rest.length
      (behindStart start legacy (start ++ m)) = .ok u s) : operandsLeft (start ++ m) = s.operands := by
  have hleft : (do readStart starts; operators (← Scan.remaining) : Decode Unit)
      (.ofString (start ++ m)) = .ok u s := (bind_ok (readStart_behind h) _).trans hrun
  unfold operandsLeft
  rw [hleft]

omit h in
theorem rest_behindStart : (behindStart start legacy (start ++ m)).cursor.rest = Cell.ofString m := by
  have hcells : (Cursor.ofString (start ++ m)).rest = Cell.ofString start ++ Cell.ofString m :=
    Cell.ofString_append start m
  unfold behindStart
  rw [← Cell.length_ofString]
  exact Cursor.rest_advance hcells

omit h in
/-- The full stop and what follows it come behind all of the name. -/
theorem behindStart_followed (x : String) : behindStart start legacy (start ++ m ++ "." ++ x) =
    (behindStart start legacy (start ++ m)).followed (Cell.ofString x) := by
  have hcursor : Cursor.ofString (start ++ m ++ "." ++ x) =
      (Cursor.ofString (start ++ m)).followed (Cell.ofString x) := by
    simp only [Cursor.ofString, Cursor.followed, Cell.ofString_append, List.append_assoc]
    rfl
  have hle : start.utf8ByteSize ≤ (Cursor.ofString (start ++ m)).rest.length := by
    rw [← Cell.length_ofString]
    simp [Cursor.ofString, Cell.ofString_append]
  unfold behindStart
  rw [hcursor, Cursor.advance_followed hle]
  rfl

end Names

end Decode

open Decode Symbol

/-- A text whose last byte is of ASCII ends with that character. -/
theorem ofString_concat {m : String} {r : List Cell} {x : Cell} (h : Cell.ofString m = r ++ [x])
    (hx : x.byte.toNat < 0x80) : ∃ t, m = t ++ String.singleton x.letter ∧ Cell.ofString t = r := by
  rcases List.eq_nil_or_concat m.toList with hm | ⟨cs, c, hm⟩
  · rw [Cell.ofString, hm] at h
    cases r <;> cases h
  rw [List.concat_eq_append] at hm
  have hcells : Cell.ofString (String.ofList cs) ++ Cell.ofChar c = r ++ [x] := by
    rw [← h, Cell.ofString, Cell.ofString, hm, String.toList_ofList, List.flatMap_append,
      List.flatMap_singleton]
  have hlow : c.toNat < 0x80 := by
    by_contra hhigh
    obtain ⟨b, bs, hbytes, hc⟩ := Cell.ofChar_eq c
    have hlast : x ∈ Cell.ofChar c := by
      have hget := congrArg List.getLast? hcells
      rw [List.getLast?_append_of_ne_nil _ (by rw [hc]; exact List.cons_ne_nil _ _),
        List.getLast?_append_of_ne_nil _ (by simp), List.getLast?_singleton] at hget
      exact List.mem_of_getLast? hget
    have hbyte : x.byte ∈ String.utf8EncodeChar c := by
      rw [← Cell.map_byte_ofChar]
      exact List.mem_map_of_mem hlast
    have := Cell.high_of_mem_encode (Nat.le_of_not_lt hhigh) _ hbyte
    omega
  rw [Cell.ofChar_ascii hlow] at hcells
  obtain ⟨hr, hlast⟩ := List.append_inj' hcells rfl
  cases hlast
  refine ⟨String.ofList cs, String.toList_inj.mp ?_, hr⟩
  rw [hm, String.toList_append, String.toList_ofList, String.toList_singleton, Cell.letter_ascii hlow]

theorem endsInTeen_text {m : String} (h : EndsInTeen (Cell.ofString m)) :
    ∃ t d, d.isDigit = true ∧ m = t ++ "1" ++ String.singleton d := by
  obtain ⟨read, one, d, hcells, hone, hd⟩ := h
  have hsplit : Cell.ofString m = (read ++ [one]) ++ [d] := by
    rw [hcells, List.append_assoc]
    rfl
  obtain ⟨t, rfl, ht⟩ := ofString_concat hsplit (Cell.low_of_isDigit hd)
  have hlow : one.byte.toNat < 0x80 := by
    rw [← Cell.toNat_letter, hone]
    decide
  obtain ⟨t', rfl, -⟩ := ofString_concat ht hlow
  exact ⟨t', d.letter, hd, by rw [hone]; rfl⟩

/-- A run and a fold make a tree. -/
theorem decode_behind {start m : String} {legacy : Bool} (h : (start, legacy) ∈ starts) :
    decode (start ++ m) = match afterStart (behindStart start legacy (start ++ m)) with
      | .ok t _ => .ok t
      | .error f _ => .error f := by
  show (match symbol (.ofString (start ++ m)) with
    | .ok t _ => Except.ok t
    | .error f _ => .error f) = _
  rw [symbol_behind h]

theorem decode_behind_eq_ok {start m : String} {legacy : Bool} {root : Symbol}
    (h : (start, legacy) ∈ starts) (hroot : decode (start ++ m) = .ok root) :
    ∃ s u, operators (behindStart start legacy (start ++ m)).cursor.rest.length
      (behindStart start legacy (start ++ m)) = .ok () s ∧ fold s = .ok root u := by
  rw [decode_behind h] at hroot
  split at hroot
  · next t u ht =>
    cases hroot
    obtain ⟨n, v, hn, ht⟩ := bind_eq_ok ht
    cases hn
    obtain ⟨⟨⟩, s, hs, hu⟩ := bind_eq_ok ht
    exact ⟨s, u, hs, hu⟩
  · cases hroot

theorem decode_followed {start m : String} {legacy : Bool} (h : (start, legacy) ∈ starts) (x : String) :
    decode (start ++ m ++ "." ++ x) =
      match afterStart ((behindStart start legacy (start ++ m)).followed (Cell.ofString x)) with
      | .ok t _ => .ok t
      | .error f _ => .error f := by
  have hassoc : start ++ m ++ "." ++ x = start ++ (m ++ "." ++ x) := by
    simp only [String.append_assoc]
  rw [← behindStart_followed, hassoc]
  exact decode_behind h

/-- What the children of a decoded root are, from an evaluation. -/
theorem decode_children (m : String) (kinds : List Kind)
    (h : (decode m).toOption.map (fun t => (t.payload, t.children.map kind)) = some (.none, kinds)) :
    ∃ cs, decode m = .ok (node .global cs) ∧ cs.map kind = kinds := by
  obtain ⟨t, ht, hview⟩ := exists_decode h
  obtain ⟨hpayload, hkinds⟩ := Prod.mk.inj hview
  obtain ⟨hwf, hroot⟩ := decode_wellFormed ht
  have hdepth := ((exact_iff t).mp hwf.exact).1
  have hnode : t = node .global t.children := by
    obtain ⟨kind, payload, children, depth⟩ := t
    have hkind : kind = .global := hroot.kind
    dsimp only at hpayload hdepth
    subst hkind hpayload hdepth
    rfl
  exact ⟨t.children, hnode ▸ ht, hkinds⟩

theorem ne_suffix_of_kinds {cs : List Symbol} {kinds : List Kind} (h : cs.map kind = kinds)
    (hnone : .suffix ∉ kinds) : ∀ c ∈ cs, c.kind ≠ .suffix := by
  rintro c hc hk
  exact hnone (h ▸ hk ▸ List.mem_map_of_mem hc)

/-- **An unmangled suffix is one more child of the root.** A name that goes on with a full stop has the
operands of the name as children of its root, in the order in which they were pushed, and the suffix after
them. These are the children of the name itself unless a function attribute lies on top of the operands.
The exception is a name that ends in the digit 1 and another digit, which are the last segment of an
identifier: in front of the full stop they are the length of a segment that is not there. -/
theorem decode_suffix {start m : String} {cs : List Symbol}
    (hstart : start ∈ ["_T0", "$S", "_$S", "$s", "_$s"])
    (h : decode (start ++ m) = .ok (node .global cs)) (hnone : ∀ c ∈ cs, c.kind ≠ .suffix) :
    (∀ x, decode (start ++ m ++ "." ++ x) =
        .ok (node .global ((operandsLeft (start ++ m)).reverse.map content ++
          [.ofText .suffix ("." ++ x)]))) ∧
      ((∀ x ∈ (operandsLeft (start ++ m)).head?, x.kind.isFunctionAttribute = false) →
        (operandsLeft (start ++ m)).reverse.map content = cs) ∨
    (∃ t d, d.isDigit = true ∧ m = t ++ "1" ++ String.singleton d) ∧
      ∃ position, decode (start ++ m ++ ".") = .error ⟨.ended, position⟩ := by
  obtain ⟨legacy, hmem⟩ : ∃ legacy, (start, legacy) ∈ starts := by
    have hall : ∀ start ∈ ["_T0", "$S", "_$S", "$s", "_$s"], ∃ e ∈ starts, e.1 = start := by decide
    obtain ⟨⟨_, legacy⟩, hmem, rfl⟩ := hall start hstart
    exact ⟨legacy, hmem⟩
  obtain ⟨s, u, hs, hu⟩ := decode_behind_eq_ok hmem h
  have hplain : (∀ x ∈ s.operands.head?, x.kind.isFunctionAttribute = false) →
      s.operands.reverse.map content = cs := fun htop =>
    (congrArg children (fold_plain hu htop)).symm
  -- a suffix would be the last child of the root
  have htop : ∀ x ∈ s.operands.head?, x.kind ≠ .suffix := by
    intro x hx hk
    have hcs := hplain fun y hy => by
      cases hx.symm.trans hy
      rw [hk]
      rfl
    have hcontent : content x = x := content_of_ne (by rw [hk]; exact nofun)
    refine hnone x ?_ hk
    rw [← hcs, ← hcontent]
    exact List.mem_map_of_mem (List.mem_reverse.mpr (List.mem_of_mem_head? hx))
  rw [operandsLeft_eq hmem hs]
  rcases alike_operators (Nat.le_refl _) hs htop with halike | hover
  · refine .inl ⟨fun x => ?_, hplain⟩
    obtain ⟨t, ht⟩ := fold_suffixed hu (Cell.ofString x)
    have hafter : afterStart ((behindStart start legacy (start ++ m)).followed (Cell.ofString x)) =
        .ok _ t := (bind_ok (halike.run _ _ (Nat.le_refl _)) _).trans ht
    have htext : Cell.text (Cell.stop :: Cell.ofString x) = "." ++ x := by
      rw [← Cell.text_ofString ("." ++ x), Cell.ofString_append]
      rfl
    rw [decode_followed hmem, hafter, htext]
  · refine .inr ⟨endsInTeen_text ?_, ?_⟩
    · exact rest_behindStart ▸ hover.teen
    · obtain ⟨position, t, ht⟩ := hover.ended _ (Nat.le_refl _)
      have hafter : afterStart ((behindStart start legacy (start ++ m)).followed []) =
          .error ⟨.ended, position⟩ t := bind_error ht _
      have hempty := decode_followed (m := m) hmem ""
      rw [String.append_empty] at hempty
      refine ⟨position, hempty.trans ?_⟩
      show (match afterStart ((behindStart start legacy (start ++ m)).followed []) with
        | .ok t _ => Except.ok t
        | .error f _ => .error f) = _
      rw [hafter]

/-- A function with a suffix. -/
theorem decode_suffix_function : ∃ cs, cs.map kind = [.function] ∧
    decode "$s4main3fooyyF" = .ok (node .global cs) ∧
    ∀ x, decode ("$s4main3fooyyF" ++ "." ++ x) =
      .ok (node .global (cs ++ [.ofText .suffix ("." ++ x)])) := by
  obtain ⟨cs, hcs, hkinds⟩ := decode_children ("$s" ++ "4main3fooyyF") [.function] (by decide +kernel)
  have hnone := ne_suffix_of_kinds hkinds (by decide)
  rcases decode_suffix (by decide) hcs hnone with ⟨hall, hplain⟩ | ⟨-, position, hended⟩
  · have htop : (operandsLeft ("$s" ++ "4main3fooyyF")).head?.map kind = some .function := by
      decide +kernel
    refine ⟨cs, hkinds, hcs, hplain (fun x hx => ?_) ▸ hall⟩
    rw [Option.mem_def.mp hx] at htop
    rw [Option.some.inj htop]
    rfl
  · have hok : (decode ("$s" ++ "4main3fooyyF" ++ ".")).toOption.isSome := by decide +kernel
    rw [hended] at hok
    cases hok

/-- **A suffix can do more than add a child.** It turns two digits, an identifier of one digit, into the
length of an identifier that does not end, and it moves an attribute behind the function that has it. -/
theorem suffix_changes_children :
    (∃ cs, decode "$s11" = .ok (node .global cs) ∧ (∀ c ∈ cs, c.kind ≠ .suffix) ∧
      decode ("$s11" ++ "." ++ "x") ≠ .ok (node .global (cs ++ [.ofText .suffix ".x"]))) ∧
    ∃ cs, decode "$s4main3fooyyFTo" = .ok (node .global cs) ∧ (∀ c ∈ cs, c.kind ≠ .suffix) ∧
      decode ("$s4main3fooyyFTo" ++ "." ++ "cold") ≠
        .ok (node .global (cs ++ [.ofText .suffix ".cold"])) := by
  constructor
  · obtain ⟨cs, hcs, hkinds⟩ := decode_children "$s11" [.identifier] (by decide +kernel)
    refine ⟨cs, hcs, ne_suffix_of_kinds hkinds (by decide), fun h => ?_⟩
    have hnone : (decode ("$s11" ++ "." ++ "x")).toOption.isNone := by decide +kernel
    rw [h] at hnone
    cases hnone
  · obtain ⟨cs, hcs, hkinds⟩ := decode_children "$s4main3fooyyFTo" [.objcAttribute, .function]
      (by decide +kernel)
    refine ⟨cs, hcs, ne_suffix_of_kinds hkinds (by decide), fun h => ?_⟩
    have hview : ((decode ("$s4main3fooyyFTo" ++ "." ++ "cold")).toOption.map fun t =>
        t.children.map kind) = some [.function, .objcAttribute, .suffix] := by decide +kernel
    rw [h] at hview
    have hcons : (cs ++ [ofText .suffix ".cold"]).map kind = [.function, .objcAttribute, .suffix] :=
      Option.some.inj hview
    rw [List.map_append, hkinds] at hcons
    cases hcons

end Demangle
