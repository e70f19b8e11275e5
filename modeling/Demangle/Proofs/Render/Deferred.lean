import Demangle.Proofs.Render.Independence

/-!
# Contexts that move behind a name

An entity in front of whose name a context does not fit prints it behind: `closure #1 in main.foo()`. The
context is then what printing it as such has given back. An entity that shows a type or has a name of
several words gives back itself, without writing anything, and is printed as a whole:

    c.movesWhole o → p = c                                       (Moved.eq_of_movesWhole)
    text of e = … ++ " in " ++ text of c                         (entityWith_whole)

Some contexts hand on another node in their place (`Moved`), and what they would have written besides is
lost: the name of an accessor (`writesMore_accessor`), the generic arguments of a function.
-/

namespace Demangle

open Print (write)

/-! ## Steps that append -/

section Appends

variable {α β : Type} {x : Print α} {y : Print β}

/-- What a step does behind a text, from what it does behind none. -/
theorem alike_behind (h : ∀ w d, Alike w d x x) (b : Buffer) (t : String) :
    x { b with text := t } =
      ((x { b with text := "" }).1, (x { b with text := "" }).2.after t) := by
  have ht : Buffer.after { b with text := "" } t = { b with text := t } := by
    simp [Buffer.after]
  rw [← ht]
  exact (h t b.depth).run { b with text := "" } rfl

/-- The step appends a text and closes the nodes that it opens. -/
def Appends (x : Print α) : Prop :=
  ∀ b, (∃ out, (x b).2.text = b.text ++ out) ∧ (x b).2.depth = b.depth

theorem appends_of_alike (h : ∀ w d, Alike w d x x) : Appends x := by
  intro b
  refine ⟨⟨(x { b with text := "" }).2.text, ?_⟩, (h "" b.depth).depth b rfl⟩
  exact congrArg (fun r => r.2.text) (alike_behind h b b.text)

/-- If two steps together append nothing, neither does. -/
theorem Appends.silent (hx : Appends x) (hy : Appends y) {b : Buffer}
    (h : (y (x b).2).2.text = b.text) :
    (x b).2.text = b.text ∧ (y (x b).2).2.text = (x b).2.text := by
  obtain ⟨⟨u, hu⟩, -⟩ := hx b
  obtain ⟨⟨v, hv⟩, -⟩ := hy (x b).2
  have hsize := congrArg String.utf8ByteSize h
  rw [hv, hu, String.utf8ByteSize_append, String.utf8ByteSize_append] at hsize
  have hempty : u = "" := String.utf8ByteSize_eq_zero_iff.mp (by omega)
  have hx : (x b).2.text = b.text := by rw [hu, hempty, String.append_empty]
  exact ⟨hx, h.trans hx.symm⟩

end Appends

/-! ## Steady printers -/

/-- What the printer does with a node does not depend on what is written already. -/
class Printer.Steady (P : Printer) : Prop where
  name : ∀ s asContext w d, Alike w d (P.name s asContext) (P.name s asContext)

/-- The printer that `printName` gives to the rule of a node. -/
abbrev Guard.printer (g : Guard) (embedded : String → String) (o : Options) (n : Nat) : Printer :=
  ⟨o, printName g embedded o n, embedded⟩

instance steady_printer (g : Guard) (embedded : String → String) (o : Options) (n : Nat) :
    (g.printer embedded o n).Steady where
  name s asContext _ d := alike_printName n d s asContext (.refl o s) (.refl s embedded)

section Steady

variable (P : Printer) [hP : P.Steady]

instance agree_self (w : String) (d : Nat) (s : Symbol) : Agree w d P P s where
  name m _ asContext := hP.name m asContext w d

theorem appends_name (s : Symbol) (asContext : Bool) : Appends (P.name s asContext) :=
  appends_of_alike (hP.name s asContext)

theorem appends_entityContext (e : Symbol) (multiWord : Bool) :
    Appends (P.entityContext e multiWord) :=
  appends_of_alike fun _ _ => alike_entityContext (fun _ _ => rfl) multiWord

theorem appends_entityName (e : Symbol) (style : EntityStyle) (multiWord : Bool) :
    Appends (P.entityName e style multiWord) :=
  appends_of_alike fun _ _ => inferInstance

theorem alike_entityType_self (e : Symbol) (args : Option Symbol) (style : EntityStyle)
    (multiWord : Bool) (w : String) (d : Nat) :
    Alike w d (P.entityType e args style multiWord) (P.entityType e args style multiWord) :=
  alike_entityType ⟨fun _ => rfl, rfl, fun _ _ => rfl⟩ (fun _ _ => inferInstance) style multiWord

end Steady

/-! ## The end of an entity -/

/-- What an entity writes between its name and a context behind it. -/
def Symbol.joint (s : Symbol) : String :=
  if s.kind == .defaultArgumentInitializer || s.kind == .initializer then " of " else " in "

/-- What an entity that is printed on its own does behind its name. -/
def Printer.entityEnd (P : Printer) (e : Symbol) (args : Option Symbol) (style : EntityStyle)
    (deferred : Option Symbol) : Print (Option Symbol) := do
  P.entityType e args style (style.isMultiWord e)
  match deferred with
  | none => return none
  | some context =>
    write e.joint
    P.print context
    return none

section Entity

variable {P : Printer} {e c p : Symbol} {args : Option Symbol} {style : EntityStyle} {b b' : Buffer}

theorem entityWith_alone (P : Printer) (e : Symbol) (args : Option Symbol) (style : EntityStyle) :
    P.entityWith e args false style = (do
      let deferred ← P.entityContext e (style.isMultiWord e)
      P.entityName e style (style.isMultiWord e)
      P.entityEnd e args style deferred) := rfl

theorem alike_entityEnd [hP : P.Steady] (deferred : Option Symbol) (w : String) (d : Nat) :
    Alike w d (P.entityEnd e args style deferred) (P.entityEnd e args style deferred) := by
  have := alike_entityType_self P e args style (style.isMultiWord e) w d
  unfold Printer.entityEnd
  cases deferred with
  | none => infer_instance
  | some context =>
    have := hP.name context false w d
    unfold Printer.print
    infer_instance

/-- An entity that shows a type or has a name of several words gives back itself. -/
theorem entityWith_back (h : (style.type != .hidden || style.isMultiWord e) = true) :
    P.entityWith e args true style b = (some e, b) := by
  unfold Printer.entityWith
  rw [h]
  rfl

/-- Another one prints its context and its name, and leaves it to its caller to print what its context has
given back. -/
theorem entityWith_handed (h : (style.type != .hidden || style.isMultiWord e) = false) :
    P.entityWith e args true style b =
      ((P.entityContext e false b).1, (P.entityName e style false (P.entityContext e false b).2).2) := by
  obtain ⟨htype, hmulti⟩ := Bool.or_eq_false_iff.mp h
  have hhidden : (style.type == .hidden) = true := by simpa using htype
  unfold Printer.entityWith Printer.entityType
  rw [h, hmulti, if_pos hhidden]
  show (match (P.entityContext e false b).1 with
    | none => (pure none : Print (Option Symbol))
    | some context => pure (some context)) (P.entityName e style false (P.entityContext e false b).2).2 =
      ((P.entityContext e false b).1, _)
  cases (P.entityContext e false b).1 <;> rfl

/-- A context in front of a name is printed with a full stop behind it, if it writes anything. -/
theorem entityContext_eq (hc : e.child? 0 = some c) (hshow : P.showsContext c = true) :
    P.entityContext e false b =
      (do
        if (P.name c true b).2.text.utf8ByteSize != b.text.utf8ByteSize then write "."
        return (P.name c true b).1) (P.name c true b).2 := by
  unfold Printer.entityContext
  rw [hc]
  dsimp only
  rw [hshow]
  rfl

/-- What a context that writes nothing gives back is given back by the entity. -/
theorem entityContext_silent (hc : e.child? 0 = some c) (hshow : P.showsContext c = true)
    (h : P.name c true b = (some p, b')) (hsame : b'.text = b.text) :
    P.entityContext e false b = (some p, b') := by
  rw [entityContext_eq hc hshow, h, hsame, bne_self_eq_false]
  rfl

theorem entityContext_eq_some [P.Steady] (h : P.entityContext e false b = (some p, b'))
    (hsame : b'.text = b.text) :
    ∃ c, e.child? 0 = some c ∧ P.name c true b = (some p, b') := by
  cases hc : e.child? 0 with
  | none =>
    rw [Printer.entityContext, hc] at h
    cases h
  | some c =>
    by_cases hshow : P.showsContext c = true
    swap
    · rw [Printer.entityContext, hc] at h
      dsimp only at h
      rw [if_pos (by simpa using hshow)] at h
      cases h
    refine ⟨c, rfl, ?_⟩
    rw [entityContext_eq hc hshow] at h
    obtain ⟨⟨out, hout⟩, -⟩ := appends_name P c true b
    generalize P.name c true b = r at h hout ⊢
    split at h
    · -- a full stop was written
      have hlonger : r.2.text ++ "." = b'.text := congrArg (fun r => r.2.text) h
      have hsize := congrArg String.utf8ByteSize (hlonger.trans hsame)
      have hstop : ".".utf8ByteSize = 1 := by decide
      simp only [hout, String.utf8ByteSize_append] at hsize
      omega
    · exact h

/-- **An entity as a context** that writes nothing gives back itself, or what its own context does. -/
theorem entityWith_moved [P.Steady] (h : P.entityWith e args true style b = (some p, b'))
    (hsame : b'.text = b.text) :
    (style.type != .hidden || style.isMultiWord e) = true ∧ p = e ∨
      (style.type != .hidden || style.isMultiWord e) = false ∧
        ∃ c b₁, e.child? 0 = some c ∧ P.name c true b = (some p, b₁) ∧ b₁.text = b.text ∧
          (P.entityName e style false b₁).2.text = b₁.text := by
  cases hmoves : style.type != .hidden || style.isMultiWord e with
  | true =>
    cases (entityWith_back hmoves).symm.trans h
    exact .inl ⟨rfl, rfl⟩
  | false =>
    rw [entityWith_handed hmoves] at h
    obtain ⟨hback, hend⟩ := Prod.mk.inj h
    obtain ⟨hsilent, hunnamed⟩ := (appends_entityContext P e false).silent
      (appends_entityName P e style false) (hend ▸ hsame)
    obtain ⟨c, hc, hcall⟩ := entityContext_eq_some (Prod.ext hback rfl) hsilent
    exact .inr ⟨rfl, c, _, hc, hcall, hsilent, hunnamed⟩

/-- A context that gives back itself is given back by the entity, whether its name has several words or
not. -/
theorem entityContext_whole [P.Steady] (hc : e.child? 0 = some c) (hshow : P.showsContext c = true)
    (h : P.name c true b = (some c, b')) (hsame : b'.text = b.text) (multiWord : Bool) :
    ∃ b₁, P.entityContext e multiWord b = (some c, b₁) ∧ b₁.text = b.text ∧ b₁.depth = b.depth := by
  cases multiWord with
  | false =>
    refine ⟨b', entityContext_silent hc hshow h hsame, hsame, ?_⟩
    have hdepth := (appends_name P c true b).2
    rw [h] at hdepth
    exact hdepth
  | true =>
    refine ⟨b, ?_, rfl, rfl⟩
    unfold Printer.entityContext
    rw [hc]
    dsimp only
    rw [hshow]
    rfl

/-- **The text behind ` in ` or ` of ` is the whole context** if the context gives back itself. -/
theorem entityWith_whole [hP : P.Steady] (args : Option Symbol) (style : EntityStyle)
    (hc : e.child? 0 = some c) (hshow : P.showsContext c = true)
    (h : P.name c true b = (some c, b')) (hsame : b'.text = b.text) :
    ∃ between full specialized,
      (P.entityWith e args false style b).2.text = b.text ++ between ++ e.joint ++ full ∧
      ∀ w, (P.name c false ⟨w, specialized, b.depth⟩).2.text = w ++ full := by
  obtain ⟨b₁, hcontext, htext, hdepth⟩ :=
    entityContext_whole hc hshow h hsame (style.isMultiWord e)
  generalize hb₂ : (P.entityName e style (style.isMultiWord e) b₁).2 = b₂
  generalize hb₃ : (P.entityType e args style (style.isMultiWord e) b₂).2 = b₃
  obtain ⟨⟨u, hu⟩, hdepth₂⟩ := appends_entityName P e style (style.isMultiWord e) b₁
  obtain ⟨⟨v, hv⟩, hdepth₃⟩ :=
    appends_of_alike (alike_entityType_self P e args style (style.isMultiWord e)) b₂
  rw [hb₂] at hu hdepth₂
  rw [hb₃] at hv hdepth₃
  have hrun : (P.entityWith e args false style b).2 =
      (P.name c false { b₃ with text := b₃.text ++ e.joint }).2 := by
    rw [entityWith_alone, ← hb₃, ← hb₂]
    show (P.entityEnd e args style (P.entityContext e (style.isMultiWord e) b).1
      (P.entityName e style (style.isMultiWord e) (P.entityContext e (style.isMultiWord e) b).2).2).2 = _
    rw [hcontext]
    rfl
  have hfull := alike_behind (hP.name c false) b₃
  refine ⟨u ++ v, (P.name c false { b₃ with text := "" }).2.text, b₃.specialized, ?_, fun w => ?_⟩
  · have hbetween : b₃.text = b.text ++ (u ++ v) := by rw [hv, hu, htext, String.append_assoc]
    rw [hrun, hfull, hbetween]
    rfl
  · rw [← hdepth, ← hdepth₂, ← hdepth₃]
    exact congrArg (fun r => r.2.text) (hfull w)

end Entity

/-! ## What an accessor adds -/

/-- The second step does what the first one does and writes something more, in one place. -/
def WritesMore {α : Type} (x y : Print α) : Prop :=
  ∀ b, ∃ u w v, w ≠ "" ∧ (x b).2.text = u ++ v ∧ y b = ((x b).1, { (x b).2 with text := u ++ w ++ v })

namespace WritesMore

variable {α β : Type}

theorem after {z : Print β} {x y : β → Print α} (h : ∀ a, WritesMore (x a) (y a)) :
    WritesMore (z >>= x) (z >>= y) :=
  fun b => h (z b).1 (z b).2

/-- What comes behind does not depend on the text in front of it. -/
theorem before {x y : Print α} {f : α → Print β} (h : WritesMore x y)
    (hf : ∀ a w d, Alike w d (f a) (f a)) : WritesMore (x >>= f) (y >>= f) := by
  intro b
  obtain ⟨u, w, v, hw, hx, hy⟩ := h b
  have hrun := alike_behind (hf (x b).1) (x b).2
  generalize f (x b).1 { (x b).2 with text := "" } = r at hrun
  have hfirst : (x >>= f) b = (r.1, r.2.after (u ++ v)) := by
    rw [← hrun, ← hx]
    rfl
  have hsecond : (y >>= f) b = (r.1, r.2.after (u ++ w ++ v)) := by
    show f (y b).1 (y b).2 = _
    rw [hy, ← hrun]
  refine ⟨u, w, v ++ r.2.text, hw, ?_, ?_⟩
  · rw [hfirst]
    exact String.append_assoc
  · rw [hsecond, hfirst]
    simp only [Buffer.after, String.append_assoc]

end WritesMore

section Accessor

variable {P : Printer} {e c : Symbol} {extra : String} {type : TypeStyle} {b : Buffer}

theorem extraText_eq : ({ type, named := true, extra } : EntityStyle).extraText = extra :=
  String.append_empty

/-- A name that nothing is added to. -/
theorem entityName_plain (multiWord : Bool) :
    P.entityName e { type, named := true } multiWord b = ((), (P.ownName e b).2) := by
  have hempty : "".isEmpty = true := rfl
  unfold Printer.entityName
  simp only [hempty, Bool.not_true, Bool.and_false, Bool.or_false, Bool.false_eq_true, if_false,
    if_true]
  rfl

theorem entityName_inFront (hextra : extra.isEmpty = false) :
    P.entityName e { type, named := true, extra } true b =
      P.ownName e { b with text := b.text ++ extra ++ " of " } := by
  unfold Printer.entityName
  simp only [hextra, Bool.not_false, Bool.true_or, Bool.and_true, if_true, extraText_eq,
    Bool.not_true, Bool.and_false, Bool.false_eq_true, if_false]
  rfl

theorem entityName_behind (hextra : extra.isEmpty = false) :
    ∃ separator, P.entityName e { type, named := true, extra } false b =
      ((), { (P.ownName e b).2 with text := (P.ownName e b).2.text ++ (separator ++ extra) }) := by
  unfold Printer.entityName
  simp only [hextra, Bool.not_false, Bool.true_or, Bool.and_true, if_true, extraText_eq,
    Bool.and_false, if_false, Bool.false_eq_true]
  show ∃ separator, (if ((P.ownName e b).2.text.utf8ByteSize != b.text.utf8ByteSize) = true then do
      write "."
      write extra
    else write extra) (P.ownName e b).2 = _
  split
  · refine ⟨".", ?_⟩
    rw [← String.append_assoc]
    rfl
  · refine ⟨"", ?_⟩
    rw [String.empty_append]
    rfl

/-- An extra name stands behind the name, or in front of one of several words. -/
theorem writesMore_entityName [P.Steady] (hextra : extra.isEmpty = false) (multiWord : Bool) :
    WritesMore (P.entityName e { type, named := true } multiWord)
      (P.entityName e { type, named := true, extra } multiWord) := by
  have hne : extra ≠ "" := by
    rintro rfl
    cases hextra
  intro b
  rw [entityName_plain]
  cases multiWord with
  | false =>
    obtain ⟨separator, hbehind⟩ := entityName_behind (P := P) (e := e) (b := b) hextra
    refine ⟨_, separator ++ extra, "", ?_, String.append_empty.symm, ?_⟩
    · exact fun h => hne (String.append_eq_empty_iff.mp h).2
    · rw [hbehind, String.append_empty]
  | true =>
    have hrun := alike_behind (x := P.ownName e) (fun _ _ => inferInstance) b
    refine ⟨b.text, extra ++ " of ", (P.ownName e { b with text := "" }).2.text, ?_,
      congrArg (fun r => r.2.text) (hrun b.text), ?_⟩
    · exact fun h => hne (String.append_eq_empty_iff.mp h).1
    · have hplain : (P.ownName e b).2 = (P.ownName e { b with text := "" }).2.after b.text :=
        congrArg Prod.snd (hrun b.text)
      rw [entityName_inFront hextra, hrun, String.append_assoc, hplain]
      rfl

/-- An extra name of one word is all that it adds to an entity. -/
theorem writesMore_entityWith [P.Steady] (hextra : extra.isEmpty = false)
    (hword : extra.toList.contains ' ' = false) :
    WritesMore (P.entityWith e none false { type, named := true })
      (P.entityWith e none false { type, named := true, extra }) := by
  have hmulti : ({ type, named := true, extra } : EntityStyle).isMultiWord e =
      ({ type, named := true } : EntityStyle).isMultiWord e := by
    unfold EntityStyle.isMultiWord
    rw [hword]
    rfl
  have hend : P.entityEnd e none { type, named := true, extra } =
      P.entityEnd e none { type, named := true } := by
    unfold Printer.entityEnd
    rw [hmulti]
    rfl
  rw [entityWith_alone, entityWith_alone, hmulti, hend]
  refine .after fun deferred => (writesMore_entityName hextra _).before fun _ => ?_
  exact alike_entityEnd deferred

/-- The names of accessors are single words. -/
theorem accessor_extra (k : Kind) : ∀ extra, k.layout = .accessor extra →
    extra.isEmpty = false ∧ extra.toList.contains ' ' = false := by
  cases k <;> intro extra h <;> cases h <;> decide

/-- **An accessor of a variable** does what the variable does, and writes its name in addition. -/
theorem writesMore_accessor [P.Steady] {p : Symbol} (hl : c.kind.layout = .accessor extra)
    (hp : c.child? 0 = some p) (hkind : p.kind = .variableDecl) :
    WritesMore (P.node p false) (P.node c false) := by
  have hvariable : P.node p false = P.entityWith p none false { type := .colon, named := true } := by
    unfold Printer.node Printer.entity Printer.styledEntity entityStyle
    rw [hkind]
    rfl
  have haccessor : P.node c false =
      P.entityWith p none false { type := .colon, named := true, extra } := by
    unfold Printer.node Printer.accessor Printer.styledEntity
    dsimp only
    rw [hl]
    dsimp only
    rw [hp]
    dsimp only
    rw [hkind]
    rfl
  obtain ⟨hextra, hword⟩ := accessor_extra c.kind extra hl
  rw [hvariable, haccessor]
  exact writesMore_entityWith hextra hword

/-- An accessor prints a variable or a subscript as an entity that shows a type. -/
theorem accessor_storage {s : Symbol} {asContext : Bool} (hs : c.child? 0 = some s)
    (hkind : s.kind = .variableDecl ∨ s.kind = .subscript) :
    ∃ style : EntityStyle, style.type = .colon ∧
      P.accessor c asContext extra = P.entityWith s none asContext style := by
  unfold Printer.accessor Printer.styledEntity
  rw [hs]
  dsimp only
  rcases hkind with hkind | hkind
  · rw [hkind]
    exact ⟨_, rfl, rfl⟩
  · rw [hkind]
    exact ⟨_, rfl, rfl⟩

theorem accessor_other {s : Symbol} {asContext : Bool} (hs : c.child? 0 = some s)
    (hkind : ¬(s.kind = .variableDecl ∨ s.kind = .subscript)) :
    P.accessor c asContext extra = P.name s asContext := by
  obtain ⟨hvariable, hsubscript⟩ := not_or.mp hkind
  unfold Printer.accessor
  rw [hs]
  dsimp only
  split
  · contradiction
  · contradiction
  · rfl

end Accessor

/-! ## What is given back -/

/-- The node is printed as an entity that shows a type or has a name of several words. -/
def Symbol.movesWhole (o : Options) (s : Symbol) : Bool :=
  s.kind.layout == .entity && s.kind != .boundGenericFunction &&
    ((entityStyle o s).type != .hidden || (entityStyle o s).isMultiWord s)

/-- How a node that is printed as a context, and has written nothing, comes to give back a node. -/
inductive Moved (g : Guard) (embedded : String → String) (o : Options) : Symbol → Symbol → Prop
  /-- An entity that shows a type or has a name of several words is given back as it is. -/
  | whole {c : Symbol} (h : c.movesWhole o = true) : Moved g embedded o c c
  /-- A function with generic arguments is given back without them. -/
  | function {c f : Symbol} (h : c.kind = .boundGenericFunction) (hf : c.child? 0 = some f) :
      Moved g embedded o c f
  /-- An accessor gives back the storage that it accesses. -/
  | storage {c s : Symbol} {extra : String} (h : c.kind.layout = .accessor extra)
      (hs : c.child? 0 = some s) (hkind : s.kind = .variableDecl ∨ s.kind = .subscript) :
      Moved g embedded o c s
  /-- An accessor of something else gives back what that does. -/
  | accessed {c s p : Symbol} {extra : String} (h : c.kind.layout = .accessor extra)
      (hs : c.child? 0 = some s) (hp : Moved g embedded o s p) : Moved g embedded o c p
  /-- An entity whose name writes nothing gives back what its own context does. -/
  | unnamed {c d p : Symbol} (h : c.movesWhole o = false) (hd : c.child? 0 = some d)
      (hname : ∃ n b, ((g.printer embedded o n).entityName c (entityStyle o c) false b).2.text = b.text)
      (hp : Moved g embedded o d p) : Moved g embedded o c p

section Moved

variable {g : Guard} {embedded : String → String} {o : Options} {n : Nat} {s c p : Symbol}
  {asContext : Bool} {b b' : Buffer}

theorem printName_eq_some (h : printName g embedded o n s asContext b = (some p, b')) :
    ∃ k b₁, n = k + 1 ∧ (g.printer embedded o k).node s asContext { b with depth := b.depth + 1 } =
      (some p, b₁) ∧ b₁.text = b'.text := by
  cases n with
  | zero => cases h
  | succ k =>
    unfold printName at h
    change (if g.limit ≤ b.depth then _ else _ : Print _) b = _ at h
    split at h
    · cases h
    · have hback : ((g.printer embedded o k).node s asContext { b with depth := b.depth + 1 }).1 =
          some p := congrArg Prod.fst h
      exact ⟨k, _, rfl, Prod.ext hback rfl, congrArg (fun r => r.2.text) h⟩

theorem printName_text (hb : b.depth < g.limit) :
    (printName g embedded o (n + 1) s asContext b).2.text =
      ((g.printer embedded o n).node s asContext { b with depth := b.depth + 1 }).2.text := by
  unfold printName
  change ((if g.limit ≤ b.depth then _ else _ : Print _) b).2.text = _
  rw [if_neg (by omega)]
  rfl

/-- What an entity gives back is its function if it has generic arguments, and else as for
`entityWith_moved`. -/
theorem entity_moved (h : (g.printer embedded o n).entity c true b = (some p, b'))
    (hsame : b'.text = b.text) (hl : c.kind.layout = .entity)
    (ih : ∀ {d p : Symbol} {b b' : Buffer}, printName g embedded o n d true b = (some p, b') →
      b'.text = b.text → Moved g embedded o d p) : Moved g embedded o c p := by
  unfold Printer.entity Printer.styledEntity at h
  by_cases hbound : c.kind = .boundGenericFunction
  · rw [if_pos (beq_iff_eq.mpr hbound)] at h
    cases hf : c.child? 0 with
    | none =>
      rw [hf] at h
      cases h
    | some f =>
      rw [hf] at h
      rcases entityWith_moved h hsame with ⟨-, rfl⟩ | ⟨hplain, -⟩
      · exact .function hbound hf
      · simp [entityStyle, hbound] at hplain
  · rw [if_neg (mt beq_iff_eq.mp hbound)] at h
    rcases entityWith_moved h hsame with ⟨hmoves, rfl⟩ | ⟨hplain, d, b₁, hd, hcall, htext, hname⟩
    · exact .whole (by simp [Symbol.movesWhole, hl, hbound, hmoves])
    · have hwhole : c.movesWhole o = false := by rw [Symbol.movesWhole, hplain, Bool.and_false]
      exact .unnamed hwhole hd ⟨n, b₁, hname⟩ (ih hcall htext)

theorem accessor_moved {extra : String}
    (h : (g.printer embedded o n).accessor c true extra b = (some p, b')) (hsame : b'.text = b.text)
    (hl : c.kind.layout = .accessor extra)
    (ih : ∀ {d p : Symbol} {b b' : Buffer}, printName g embedded o n d true b = (some p, b') →
      b'.text = b.text → Moved g embedded o d p) : Moved g embedded o c p := by
  cases hs : c.child? 0 with
  | none =>
    unfold Printer.accessor at h
    rw [hs] at h
    cases h
  | some s =>
    by_cases hkind : s.kind = .variableDecl ∨ s.kind = .subscript
    · obtain ⟨style, htype, heq⟩ := accessor_storage hs hkind
      have hmoves : (style.type != .hidden || style.isMultiWord s) = true := by
        rw [htype]
        rfl
      rw [heq, entityWith_back hmoves] at h
      cases h
      exact .storage hl hs hkind
    · rw [accessor_other hs hkind] at h
      exact .accessed hl hs (ih h hsame)

/-- **What a context gives back when it has written nothing.** -/
theorem printName_moved (n : Nat) : ∀ {c p : Symbol} {b b' : Buffer},
    printName g embedded o n c true b = (some p, b') → b'.text = b.text →
      Moved g embedded o c p := by
  induction n with
  | zero =>
    intro c p b b' h
    cases h
  | succ n ih =>
    intro c p b b' h hsame
    obtain ⟨k, b₁, hk, hnode, htext⟩ := printName_eq_some h
    cases hk
    replace hsame : b₁.text = b.text := htext.trans hsame
    unfold Printer.node at hnode
    dsimp only at hnode
    cases hl : c.kind.layout with
    | entity =>
      rw [hl] at hnode
      exact entity_moved hnode hsame hl ih
    | accessor extra =>
      rw [hl] at hnode
      exact accessor_moved hnode hsame hl ih
    | _ =>
      rw [hl] at hnode
      cases hnode

/-- What is not handed on is given back whole. -/
theorem Moved.eq_of_movesWhole (h : Moved g embedded o c p) (hwhole : c.movesWhole o = true) :
    p = c := by
  have hlayout : c.kind.layout = .entity ∧ c.kind ≠ .boundGenericFunction := by
    simp only [Symbol.movesWhole, Bool.and_eq_true, beq_iff_eq, bne_iff_ne] at hwhole
    exact hwhole.1
  cases h with
  | whole => rfl
  | function h => exact absurd h hlayout.2
  | storage h => cases hlayout.1.symm.trans h
  | accessed h => cases hlayout.1.symm.trans h
  | unnamed h => cases hwhole.symm.trans h

/-- **What moves behind a name.** A context that has written nothing gives back a node in one of the ways of
`Moved`. An entity that shows a type or has a name of several words gives back itself, so the text behind
` in ` or ` of ` is all of it. An accessor of a variable gives back the variable, and its own name is
lost. -/
theorem moved_context (h : printName g embedded o n c true b = (some p, b'))
    (hsame : b'.text = b.text) :
    Moved g embedded o c p ∧
      (c.movesWhole o = true → p = c ∧
        ∀ (e : Symbol) (args : Option Symbol) (style : EntityStyle), e.child? 0 = some c →
          (g.printer embedded o n).showsContext c = true → ∃ between full specialized,
            ((g.printer embedded o n).entityWith e args false style b).2.text =
              b.text ++ between ++ e.joint ++ full ∧
            ∀ w, (printName g embedded o n c false ⟨w, specialized, b.depth⟩).2.text = w ++ full) ∧
      ∀ extra, c.kind.layout = .accessor extra → c.child? 0 = some p → p.kind = .variableDecl →
        ∀ (k : Nat) (b : Buffer), b.depth < g.limit → ∃ u w v, w ≠ "" ∧
          (printName g embedded o (k + 1) p false b).2.text = u ++ v ∧
          (printName g embedded o (k + 1) c false b).2.text = u ++ w ++ v := by
  have hmoved := printName_moved n h hsame
  refine ⟨hmoved, fun hwhole => ?_, fun extra hl hp hkind k b hb => ?_⟩
  · obtain rfl := hmoved.eq_of_movesWhole hwhole
    exact ⟨rfl, fun e args style hc hshow => entityWith_whole args style hc hshow h hsame⟩
  · rw [printName_text hb, printName_text hb]
    obtain ⟨u, w, v, hw, hx, hy⟩ := writesMore_accessor (P := g.printer embedded o k) hl hp hkind
      { b with depth := b.depth + 1 }
    exact ⟨u, w, v, hw, hx, congrArg (fun r => r.2.text) hy⟩

end Moved

/-- The variable `main.x : Swift.Int`. -/
def sampleVariable : Symbol :=
  .node .variableDecl [.ofText .moduleName "main", .ofText .identifier "x",
    .node .type [.standardType .structType "Int"]]

/-- A structure that is declared in it. -/
def sampleMember : Symbol :=
  .node .structType [sampleVariable, .ofText .identifier "Foo"]

theorem moved_context_variable :
    printName .standard id .full 8 sampleVariable true {} = (some sampleVariable, {}) ∧
      Moved .standard id .full sampleVariable sampleVariable ∧
      ∃ between full specialized,
        ((Guard.standard.printer id .full 8).entityWith sampleMember none false
          { type := .hidden, named := true } {}).2.text = "" ++ between ++ sampleMember.joint ++ full ∧
        ∀ w, (printName .standard id .full 8 sampleVariable false ⟨w, specialized, 0⟩).2.text =
          w ++ full := by
  have h : printName .standard id .full 8 sampleVariable true {} = (some sampleVariable, {}) := by rfl
  obtain ⟨hmoved, hwhole, -⟩ := moved_context h rfl
  obtain ⟨-, hbehind⟩ := hwhole (by decide)
  have hshow : (Guard.standard.printer id .full 8).showsContext sampleVariable = true := by decide
  have hmember := hbehind sampleMember none { type := .hidden, named := true } rfl hshow
  dsimp only at hmember
  exact ⟨h, hmoved, hmember⟩

/-! ## What gets lost -/

/-- In the tree of the mangled name `m` there is an entity with the text `whole`, its context has the text
`context`, and as a context writes nothing and gives back a node with the text `back`. -/
def GivesBack (m whole context back : String) : Prop :=
  ∃ t e c p, decode m = .ok t ∧ e ∈ t.nodes ∧ e.child? 0 = some c ∧
    printName .standard (readEmbedded .standard embeddingLimit) .full Symbol.nestingLimit c true {} =
      (some p, {}) ∧
    render .full e = whole ∧ render .full c = context ∧ render .full p = back

/-- The texts of the entity at position `i` of a tree and of its context, and what printing the context as
such gives back and writes. -/
def contextView (i : Nat) (t : Symbol) : Option (String × String × Option String × Buffer) := do
  let e ← t.nodes[i]?
  let c ← e.child? 0
  let r := printName .standard (readEmbedded .standard embeddingLimit) .full Symbol.nestingLimit c true {}
  return (render .full e, render .full c, r.1.map (render .full), r.2)

theorem givesBack_of_eval {m whole context back : String} {i : Nat}
    (h : (decode m).toOption.map (contextView i) = some (some (whole, context, some back, {}))) :
    GivesBack m whole context back := by
  obtain ⟨t, ht, hview⟩ := exists_decode h
  obtain ⟨e, he, hview⟩ := Option.bind_eq_some_iff.mp hview
  obtain ⟨c, hc, hview⟩ := Option.bind_eq_some_iff.mp hview
  obtain ⟨hwhole, hcontext, hback, hbuffer⟩ : _ ∧ _ ∧ _ ∧ _ := by
    simpa only [pure, Option.some.injEq, Prod.mk.injEq] using hview
  obtain ⟨p, hp, hback⟩ := Option.map_eq_some_iff.mp hback
  exact ⟨t, e, c, p, ht, List.mem_of_getElem? he, hc, Prod.ext hp hbuffer, hwhole, hcontext, hback⟩

/-- **Something can get lost**: the name of an accessor, and the generic arguments of a function. -/
theorem moved_context_cut :
    GivesBack "$s4main1xSivg3FooV" "Foo in main.x : Swift.Int" "main.x.getter : Swift.Int"
        "main.x : Swift.Int" ∧
      GivesBack "$s4main3fooyyxlF3BarVySi_SSGD" "Bar in main.foo<A>(A) -> ()"
        "main.foo<Swift.Int>(A) -> ()" "main.foo<A>(A) -> ()" :=
  ⟨givesBack_of_eval (i := 1) (by decide +kernel), givesBack_of_eval (i := 5) (by decide +kernel)⟩

end Demangle
