import Demangle.Proofs.Operand.Stop
import Demangle.Proofs.Operator.Bound
import Demangle.Proofs.Operator.Local
import Demangle.Proofs.Operator.Loops
import Demangle.Proofs.Run

/-!
# Operators in front of a full stop

Every operator other than the full stop itself does the same at the end of the input and in front of a full
stop, unless it is an identifier that reads too far (`endsAlike_operator?`, `endsAlike_identifier`). There
is one instance for each step, and most follow from those of the parts. The steps that see where the input
ends have a proof of their own: the loops that are bounded by the bytes left, the steps that look at the
next byte first, and those that read an integer.
-/

namespace Demangle

/-! ## Letters -/

namespace Scan

instance : IsLetter '0' := ⟨by decide⟩
instance : IsLetter 'L' := ⟨by decide⟩
instance : IsLetter 'P' := ⟨by decide⟩
instance : IsLetter 'd' := ⟨by decide⟩
instance : IsLetter 'e' := ⟨by decide⟩
instance : IsLetter 'l' := ⟨by decide⟩
instance : IsLetter 'n' := ⟨by decide⟩
instance : IsLetter 'q' := ⟨by decide⟩
instance : IsLetter 'z' := ⟨by decide⟩

end Scan

namespace Decode

open Scan (Skips)

instance : Skips wordLetter? := ⟨rfl⟩
instance : Skips relatedLetter? := ⟨rfl⟩
instance : Skips standardOperator? := ⟨rfl⟩
instance : Skips requirementForm? := ⟨rfl⟩
instance : Skips representation? := ⟨rfl⟩
instance : Skips parameterConvention? := ⟨rfl⟩
instance : Skips resultConvention? := ⟨rfl⟩

variable {α : Type}

/-! ## Operands -/

instance endsAlike_pop : EndsAlike pop :=
  inferInstanceAs (EndsAlike (pop? >>= _))

instance endsAlike_popIf (p : Kind → Bool) : EndsAlike (popIf p) :=
  inferInstanceAs (EndsAlike (popIf? p >>= _))

instance endsAlike_popKind? (k : Kind) : EndsAlike (popKind? k) :=
  endsAlike_popIf? _

instance endsAlike_popKind (k : Kind) : EndsAlike (popKind k) :=
  endsAlike_popIf _

instance endsAlike_popType : EndsAlike popType :=
  endsAlike_popKind _

instance endsAlike_popTypeChild : EndsAlike popTypeChild :=
  inferInstanceAs (EndsAlike (popType >>= _))

instance endsAlike_popAnyGeneric : EndsAlike popAnyGeneric := by
  unfold popAnyGeneric
  infer_instance

instance endsAlike_popDeclName : EndsAlike popDeclName :=
  endsAlike_popIf _

instance endsAlike_popEntity : EndsAlike popEntity :=
  endsAlike_popIf _

instance endsAlike_popSignature? : EndsAlike popSignature? :=
  endsAlike_popKind? _

instance endsAlike_popModule? : EndsAlike popModule? := by
  refine EndsAlike.then fun o => ?_
  cases o <;> infer_instance

instance endsAlike_popModule : EndsAlike popModule :=
  inferInstanceAs (EndsAlike (popModule? >>= _))

instance endsAlike_popContext : EndsAlike popContext := by
  refine EndsAlike.then fun o => ?_
  cases o with
  | some m => infer_instance
  | none =>
    refine EndsAlike.then fun o => ?_
    cases o <;> infer_instance

instance endsAlike_popMarked {item : Decode α} [EndsAlike item] (n : Nat) :
    ∀ acc, EndsAlike (popMarked item n acc) := by
  induction n with
  | zero => exact fun _ => endsAlike_refuse
  | succ n ih =>
    intro acc
    unfold popMarked
    infer_instance

instance endsAlike_popElements {item : Decode α} [EndsAlike item] : EndsAlike (popElements item) :=
  endsAlike_get (fun _ _ => rfl) (fun _ _ => rfl) fun _ => inferInstance

instance endsAlike_popList {item : Decode α} [EndsAlike item] : EndsAlike (popList item) := by
  unfold popList
  infer_instance

instance endsAlike_popTypeList : EndsAlike popTypeList := by
  unfold popTypeList
  infer_instance

instance endsAlike_popTuple : EndsAlike popTuple := by
  unfold popTuple popTupleElement
  infer_instance

instance endsAlike_indexNode : EndsAlike indexNode := by
  unfold indexNode
  infer_instance

/-! ## Generic parameters, signatures and conformances -/

instance endsAlike_genericParameter : EndsAlike genericParameter := by
  unfold genericParameter
  infer_instance

instance endsAlike_popProtocol : EndsAlike popProtocol := by
  refine EndsAlike.then fun o => ?_
  cases o <;> infer_instance

instance endsAlike_popProtocolList : EndsAlike popProtocolList := by
  unfold popProtocolList
  infer_instance

instance endsAlike_popAssociatedTypeName : EndsAlike popAssociatedTypeName := by
  unfold popAssociatedTypeName
  infer_instance

instance endsAlike_memberType (base : Symbol) : EndsAlike (memberType base) := by
  unfold memberType
  infer_instance

instance endsAlike_memberPathType (base : Symbol) : EndsAlike (memberPathType base) := by
  unfold memberPathType
  infer_instance

instance endsAlike_popAssociatedTypePath : EndsAlike popAssociatedTypePath := by
  unfold popAssociatedTypePath
  infer_instance

theorem endsAlike_archetype? {c : Char} {read : Decode Symbol} (h : archetype? c = some read) :
    EndsAlike read := by
  unfold archetype? at h
  split at h <;> cases h <;> infer_instance

instance endsAlike_archetype : EndsAlike archetype :=
  endsAlike_meaning fun h =>
    have := endsAlike_archetype? h
    inferInstance

instance endsAlike_popConformance : EndsAlike popConformance := by
  refine EndsAlike.then fun signature => EndsAlike.then fun m => ?_
  refine EndsAlike.then fun protocol => EndsAlike.then fun o => ?_
  cases o <;> infer_instance

instance endsAlike_retroactiveConformance : EndsAlike retroactiveConformance := by
  unfold retroactiveConformance
  infer_instance

instance endsAlike_parameterCounts (n : Nat) : EndsAlike (parameterCounts n) := by
  induction n with
  | zero => exact endsAlike_fail _
  | succ n ih =>
    unfold parameterCounts
    dsimp only
    infer_instance

instance endsAlike_popSignatureWith (counts : List UInt64) : EndsAlike (popSignatureWith counts) := by
  unfold popSignatureWith
  infer_instance

instance endsAlike_countedSignature : EndsAlike countedSignature := by
  have := endsAlike_rounds parameterCounts fun hn =>
    terminates_parameterCounts.stable (a := ()) hn
  exact EndsAlike.then (x := (liftM Scan.remaining : Decode Nat) >>= parameterCounts) fun counts =>
    endsAlike_popSignatureWith counts

instance endsAlike_genericType : EndsAlike genericType := by
  unfold genericType
  infer_instance

instance endsAlike_indexNodes (n : Nat) : EndsAlike (indexNodes n) := by
  induction n with
  | zero => exact endsAlike_pure _
  | succ n ih =>
    unfold indexNodes
    infer_instance

instance endsAlike_constraint (subject : Symbol) (constraint : Constraint) :
    EndsAlike (constraint.decode subject) := by
  cases constraint <;> (unfold Constraint.decode; infer_instance)

instance endsAlike_subject (subject : Subject) : EndsAlike subject.decode := by
  cases subject <;> (unfold Subject.decode; infer_instance)

instance endsAlike_requirement : EndsAlike requirement := by
  refine endsAlike_peek? (Pops.toLooksAhead 1 (x := requirement)) nofun fun c => ?_
  infer_instance

/-! ## Function types and labels -/

instance endsAlike_popFunctionPart : EndsAlike popFunctionPart := by
  unfold popFunctionPart
  infer_instance

instance endsAlike_popFunctionType (k : Kind) : EndsAlike (popFunctionType k) := by
  unfold popFunctionType popArguments
  infer_instance

instance endsAlike_parameterSlot? (type : Symbol) : EndsAlike (parameterSlot? type) := by
  unfold parameterSlot?
  infer_instance

instance endsAlike_labelList (labels : List Symbol) : EndsAlike (labelList labels) := by
  unfold labelList
  infer_instance

instance endsAlike_popTypes (n : Nat) : ∀ acc, EndsAlike (popTypes n acc) := by
  induction n with
  | zero => exact fun acc => endsAlike_pure acc
  | succ n ih =>
    intro acc
    unfold popTypes
    infer_instance

instance endsAlike_popLoweredSignature? : EndsAlike popLoweredSignature? := by
  refine EndsAlike.then fun o => ?_
  cases o <;> infer_instance

instance endsAlike_loweredFunctionType : EndsAlike loweredFunctionType := by
  refine EndsAlike.then fun signature => EndsAlike.then fun escaping => EndsAlike.then fun callee => ?_
  refine EndsAlike.then fun representation => EndsAlike.then fun params => ?_
  refine EndsAlike.then fun results => EndsAlike.then fun throws => ?_
  dsimp only
  split <;> infer_instance

instance endsAlike_popLabels (type : Symbol) : EndsAlike (popLabels type) := by
  refine endsAlike_get (fun _ _ => rfl) (fun _ _ => rfl) fun s => ?_
  dsimp only
  split
  all_goals
    refine EndsAlike.then fun unlabelled => ?_
    split
    · infer_instance
    · refine EndsAlike.then fun o => ?_
      cases o with
      | none => infer_instance
      | some slot =>
        dsimp only
        split <;> infer_instance

/-! ## Nominal types and back-references -/

instance endsAlike_symbolicReference : EndsAlike symbolicReference := by
  unfold symbolicReference
  infer_instance

instance endsAlike_builtinSize : EndsAlike builtinSize := by
  unfold builtinSize
  infer_instance

theorem endsAlike_builtinName? {c : Char} {name : Decode String} (h : builtinName? c = some name) :
    EndsAlike name := by
  unfold builtinName? at h
  split at h <;> cases h <;> infer_instance

instance endsAlike_builtinType : EndsAlike builtinType :=
  endsAlike_meaning fun h =>
    have := endsAlike_builtinName? h
    inferInstance

instance endsAlike_nominalType (k : Kind) : EndsAlike (nominalType k) := by
  unfold nominalType
  infer_instance

instance endsAlike_wrapBound (nominal args : Symbol) : EndsAlike (wrapBound nominal args) := by
  unfold wrapBound
  split
  · infer_instance
  · split
    · infer_instance
    · split <;> infer_instance

/-- A node is bound as its context is. -/
theorem endsAlike_bindArguments_node {k : Kind} {p : Payload} {context : Symbol}
    {others : List Symbol} {d : Nat} [∀ lists, EndsAlike (bindContext context lists)]
    (lists : List Symbol) : EndsAlike (bindArguments ⟨k, p, context :: others, d⟩ lists) := by
  cases href : isReference k with
  | true =>
    unfold bindArguments
    rw [href]
    exact endsAlike_pure _
  | false =>
    cases lists with
    | nil =>
      unfold bindArguments
      rw [href]
      exact endsAlike_refuse
    | cons args outer =>
      rw [bindArguments_node href]
      infer_instance

instance endsAlike_bindArguments (x : Symbol) (lists : List Symbol) :
    EndsAlike (bindArguments x lists) := by
  induction x using Symbol.spineInduction generalizing lists with
  | leaf k p d =>
    rw [bindArguments]
    infer_instance
  | extension k p p' declaredIn extended signature d' others d ih =>
    have (lists : List Symbol) : EndsAlike
        (bindContext ⟨.extension, p', declaredIn :: extended :: signature, d'⟩ lists) := by
      unfold bindContext
      infer_instance
    exact endsAlike_bindArguments_node lists
  | context k p context others d hc ih =>
    have (lists : List Symbol) : EndsAlike (bindContext context lists) := by
      unfold bindContext
      split
      · cases hc
      · infer_instance
      · exact ih lists
    exact endsAlike_bindArguments_node lists

instance endsAlike_popArgumentLists (n : Nat) : EndsAlike (popArgumentLists n) := by
  induction n with
  | zero => exact endsAlike_refuse
  | succ n ih =>
    unfold popArgumentLists
    infer_instance

instance endsAlike_boundGenericType : EndsAlike boundGenericType := by
  refine EndsAlike.then fun retroactive => ?_
  exact endsAlike_get (fun _ _ => rfl) (fun _ _ => rfl) fun _ => inferInstance

instance endsAlike_optionalType : EndsAlike optionalType := by
  unfold optionalType
  infer_instance

theorem endsAlike_standardOperator? {c : Char} {read : Decode Symbol}
    (h : standardOperator? c = some read) : EndsAlike read := by
  unfold standardOperator? at h
  split at h <;> cases h <;> infer_instance

/-- A letter that was read had a meaning. -/
theorem meaning_of_next {γ : Type} {cause : Cause} {f : Char → Option γ} {s t : State} {a : γ}
    {x : Cell} {r : List Cell} (hr : s.cursor.rest = x :: r)
    (h : (liftM (Scan.letter cause f) : Decode γ) s = .ok a t) : f x.letter = some a := by
  obtain ⟨d, hd, -⟩ := lift_eq_ok h
  unfold Scan.letter at hd
  rw [hr] at hd
  dsimp only at hd
  split at hd
  · next b hb =>
    cases hd
    exact hb
  · cases hd

/-- No type of the standard library is named by a digit. -/
theorem standardType?_digit {c : Char} (h : c.isDigit = true) : standardType? c = none := by
  unfold standardType?
  split <;> first | rfl | exact absurd h (by decide)

instance endsAlike_standardSubstitution : EndsAlike standardSubstitution := by
  have hbody : EndsAlike (do
      let count := (← Scan.integer?).getD 0
      ensure (count ≤ repeatLimit)
      let (kind, name) ← Scan.letter (.expected "a standard substitution letter") standardType?
      pushCopies (count.toNat - 1) (.standardType kind name)
      return .standardType kind name : Decode Symbol) := by
    refine endsAlike_integer? fun {n s b s' x} hr hx h => ?_
    obtain ⟨⟨⟩, t, ht, h⟩ := bind_eq_ok h
    obtain ⟨-, rfl⟩ := ensure_eq_ok ht
    obtain ⟨type, u, hu, -⟩ := bind_eq_ok h
    cases (standardType?_digit hx).symm.trans (meaning_of_next hr hu)
  refine endsAlike_peek? (operates_standardSubstitution.toLooksAhead) nofun fun c => ?_
  exact endsAlike_meaning? hbody endsAlike_standardOperator?

instance endsAlike_pushRepeated (count : Option UInt64) (x : Symbol) :
    EndsAlike (pushRepeated count x) := by
  unfold pushRepeated
  infer_instance

/-- A run of back-references does not end with a digit. -/
theorem references_digit {n : Nat} {count : Option UInt64} {s s' : State} {x : Cell} {b : Symbol}
    (hr : s.cursor.rest = [x]) (hx : x.isDigit = true) : references n count s ≠ .ok b s' := by
  intro h
  cases n with
  | zero => cases h
  | succ n =>
    have hstep : (s.cursor.rest.head?.map Cell.letter).bind referenceStep? = some .count := by
      rw [hr]
      exact referenceStep?_digit hx
    have hnone : Scan.integer? s.cursor = .ok none s.cursor := by
      unfold Scan.integer?
      rw [hr]
      rfl
    obtain ⟨o, t, ho, h⟩ := bind_eq_ok h
    cases ho
    rw [hstep] at h
    obtain ⟨m, u, hm, h⟩ := bind_eq_ok h
    obtain ⟨⟨⟩, v, hv, -⟩ := bind_eq_ok h
    obtain ⟨d, hd, -⟩ := lift_eq_ok hm
    cases hnone.symm.trans hd
    cases (ensure_eq_ok hv).1

instance endsAlike_references (n : Nat) : ∀ count, EndsAlike (references n count) := by
  induction n with
  | zero => exact fun _ => endsAlike_fail _
  | succ n ih =>
    intro count
    refine endsAlike_peek? (Pushes.toLooksAhead (x := references (n + 1) count)) ?_ fun c => ?_
    · intro s b s' _ h
      obtain ⟨_, t, -, h⟩ := bind_eq_ok h
      cases h
    · dsimp only [Option.bind_some]
      split
      · infer_instance
      · refine EndsAlike.then fun _ => ?_
        split <;> infer_instance
      · refine endsAlike_integer? fun {m s b s' x} hr hx h => ?_
        obtain ⟨⟨⟩, t, ht, h⟩ := bind_eq_ok h
        obtain ⟨-, rfl⟩ := ensure_eq_ok ht
        exact references_digit hr hx h
      · infer_instance

instance endsAlike_backReference : EndsAlike backReference :=
  endsAlike_rounds (fun n => references n none) fun hn => terminates_references.stable hn

/-! ## Identifiers -/

theorem segmentLength_eq_ok {s t : State} {n : Nat} (h : segmentLength s = .ok n t) :
    ∃ v d, Scan.integer? s.cursor = .ok (some v) d ∧ 0 < v ∧ n = v.toNat ∧
      t = { s with cursor := d } := by
  obtain ⟨v, u, hv, h⟩ := bind_eq_ok h
  obtain ⟨⟨⟩, w, hw, h⟩ := bind_eq_ok h
  obtain ⟨hpos, rfl⟩ := ensure_eq_ok hw
  cases h
  obtain ⟨d, hd, rfl⟩ := lift_eq_ok hv
  obtain ⟨o, e, ho, hd⟩ := bind_eq_ok hd
  cases o with
  | none => cases hd
  | some v' =>
    cases hd
    exact ⟨v, d, ho, of_decide_eq_true hpos, rfl, rfl⟩

theorem segmentLength_eval {s : State} {v : UInt64} {d : Cursor}
    (h : Scan.integer? s.cursor = .ok (some v) d) (hpos : 0 < v) :
    segmentLength s = .ok v.toNat { s with cursor := d } := by
  have hint : (liftM Scan.integer : Decode UInt64) s = .ok v { s with cursor := d } :=
    lift_ok (bind_ok h _)
  have hensure : ensure (0 < v) { s with cursor := d } = .ok () { s with cursor := d } := by
    unfold ensure
    rw [decide_eq_true hpos]
    rfl
  exact (bind_ok hint _).trans (bind_ok hensure _)

/-- A segment does the same if what follows its length reads as many bytes. -/
theorem endsAlike_segmentLength {β : Type} {f : Nat → Decode β} [hf : ∀ n, EndsAlike (f n)]
    (hreads : ∀ {n : Nat} {s : State} {b : β} {s' : State}, f n s = .ok b s' →
      s'.cursor.rest.length + n ≤ s.cursor.rest.length)
    (hended : ∀ {n : Nat} {s : State}, s.cursor.rest.length < n →
      ∃ position t, f n s = .error ⟨.ended, position⟩ t) : EndsAlike (segmentLength >>= f) where
  alike {s b s'} h := by
    obtain ⟨n, t, hn, h⟩ := bind_eq_ok h
    obtain ⟨v, d, hv, hpos, rfl, rfl⟩ := segmentLength_eq_ok hn
    by_cases hdigit : ∃ x, d.rest = [x] ∧ x.isDigit = true
    · -- the length is that of the last digit
      obtain ⟨x, hr, hx⟩ := hdigit
      have hlength := hreads h
      have hnat : 0 < v.toNat := hpos
      have hone : v.toNat = 1 ∧ s'.cursor.rest = [] := by
        simp only [hr, List.length_singleton] at hlength
        exact ⟨by omega, List.length_eq_zero_iff.mp (by omega)⟩
      obtain ⟨hteen, m, e, hm, hlt, he⟩ := Scan.integer?_teen hv hr hx hone.1
      have hlong : segmentLength (s.followed []) = .ok m.toNat { s with cursor := e } :=
        segmentLength_eval hm (Nat.lt_trans Nat.one_pos hlt)
      obtain ⟨position, u, hu⟩ := hended (n := m.toNat) (s := { s with cursor := e })
        (by simpa [he] using hlt)
      exact .inr ⟨hteen, hone.2, position, u, (bind_ok hlong _).trans hu⟩
    · have hbyte : ∀ x, d.rest = [x] → x.isDigit = false := fun x hx =>
        Bool.eq_false_iff.mpr fun hx' => hdigit ⟨x, hx, hx'⟩
      refine alike_bind (fun more => ?_) (pops_segmentLength.toLooksAhead.reaches hn) (hf _) h
      exact segmentLength_eval (Scan.integer?_followed hv hbyte more) hpos

theorem take_reads {n : Nat} {s s' : State} {text : String}
    (h : (liftM (Scan.take n) : Decode String) s = .ok text s') :
    s'.cursor.rest.length + n ≤ s.cursor.rest.length := by
  obtain ⟨d, hd, rfl⟩ := lift_eq_ok h
  obtain ⟨hlength, -, -, -, rfl⟩ := Scan.take_eq_ok hd
  simp only [Cursor.advance, List.length_drop]
  omega

theorem take_ended {n : Nat} {s : State} (h : s.cursor.rest.length < n) :
    (liftM (Scan.take n) : Decode String) s = .error ⟨.ended, s.cursor.position⟩ s := by
  show (MonadLift.monadLift (Scan.take n) : Decode String) s = _
  simp only [MonadLift.monadLift, Scan.take, if_pos h]

theorem accept_total (letter : Char) (s : State) :
    ∃ found t, (liftM (Scan.accept letter) : Decode Bool) s = .ok found t := by
  have hscan : ∃ found d, Scan.accept letter s.cursor = .ok found d := by
    unfold Scan.accept Scan.acceptByte
    split
    · split <;> exact ⟨_, _, rfl⟩
    · exact ⟨_, _, rfl⟩
  obtain ⟨found, d, hd⟩ := hscan
  exact ⟨found, _, lift_ok hd⟩

instance endsAlike_segment : EndsAlike segment := by
  refine endsAlike_segmentLength (fun {n s b s'} h => ?_) fun h => ⟨_, _, bind_error (take_ended h) _⟩
  obtain ⟨text, t, ht, h⟩ := bind_eq_ok h
  have hreads := take_reads ht
  cases h
  exact hreads

instance endsAlike_punycodeSegment : EndsAlike punycodeSegment := by
  refine endsAlike_segmentLength (fun {n s b s'} h => ?_) fun {n s} h => ?_
  · obtain ⟨mark, t, ht, h⟩ := bind_eq_ok h
    obtain ⟨text, u, hu, h⟩ := bind_eq_ok h
    obtain ⟨-, rfl⟩ := require_eq_ok h
    exact (take_reads hu).trans ((looksAhead_lift (Scan.accept '_')).rest_le ht)
  · obtain ⟨mark, t, ht⟩ := accept_total '_' s
    have hle := (looksAhead_lift (Scan.accept '_')).rest_le ht
    exact ⟨_, _, (bind_ok ht _).trans (bind_error (take_ended (Nat.lt_of_le_of_lt hle h)) _)⟩

instance endsAlike_wordsAndSegments (n : Nat) : ∀ acc, EndsAlike (wordsAndSegments n acc) := by
  induction n with
  | zero => exact fun _ => endsAlike_fail _
  | succ n ih =>
    intro acc
    refine EndsAlike.then fun o => ?_
    cases o with
    | none => infer_instance
    | some word => exact endsAlike_get (fun _ _ => rfl) (fun _ _ => rfl) fun s => inferInstance

instance endsAlike_identifierText : EndsAlike identifierText := by
  have := endsAlike_rounds (fun n => wordsAndSegments n "") fun hn =>
    terminates_wordsAndSegments.stable hn
  refine endsAlike_peek? (Pops.toLooksAhead 0 (x := identifierText)) nofun fun c => ?_
  split <;> infer_instance

instance endsAlike_identifier : EndsAlike identifier := by
  unfold identifier
  infer_instance

instance endsAlike_operatorName : EndsAlike operatorName := by
  unfold operatorName
  infer_instance

instance endsAlike_localName : EndsAlike localName := by
  refine EndsAlike.then fun isPrivate => ?_
  split
  · infer_instance
  · refine EndsAlike.then fun isFile => ?_
    split
    · infer_instance
    · refine EndsAlike.then fun o => ?_
      cases o <;> infer_instance

/-! ## Entities -/

instance endsAlike_extensionContext : EndsAlike extensionContext := by
  unfold extensionContext
  infer_instance

instance endsAlike_plainFunction : EndsAlike plainFunction := by
  unfold plainFunction
  infer_instance

instance endsAlike_popLabelledType : EndsAlike popLabelledType := by
  unfold popLabelledType
  infer_instance

instance endsAlike_namedEntity (k : Kind) : EndsAlike (namedEntity k) := by
  unfold namedEntity
  infer_instance

instance endsAlike_contextEntity (k : Kind) (x : Decode (List Symbol)) [EndsAlike x] :
    EndsAlike (contextEntity k x) := by
  unfold contextEntity
  infer_instance

instance endsAlike_indexAndType : EndsAlike indexAndType := by
  unfold indexAndType
  infer_instance

theorem endsAlike_functionEntity? {c : Char} {read : Decode Symbol}
    (h : functionEntity? c = some read) : EndsAlike read := by
  unfold functionEntity? at h
  split at h <;> cases h <;> infer_instance

instance endsAlike_functionEntity : EndsAlike functionEntity :=
  endsAlike_meaning endsAlike_functionEntity?

theorem endsAlike_accessor? {c : Char} {read : Decode (Option Kind)} (h : accessor? c = some read) :
    EndsAlike read := by
  unfold accessor? at h
  split at h <;> cases h <;> infer_instance

instance endsAlike_accessor (storage : Symbol) : EndsAlike (accessor storage) :=
  endsAlike_meaning fun h =>
    have := endsAlike_accessor? h
    inferInstance

instance endsAlike_variableEntity : EndsAlike variableEntity := by
  unfold variableEntity
  infer_instance

instance endsAlike_subscriptEntity : EndsAlike subscriptEntity := by
  unfold subscriptEntity
  infer_instance

/-! ## Special types, metadata and witnesses -/

instance endsAlike_wrapType (k : Kind) : EndsAlike (wrapType k) := by
  unfold wrapType
  infer_instance

instance endsAlike_wrapTypeChild (k : Kind) : EndsAlike (wrapTypeChild k) := by
  unfold wrapTypeChild
  infer_instance

instance endsAlike_representedMetatype (k : Kind) : EndsAlike (representedMetatype k) := by
  unfold representedMetatype
  infer_instance

instance endsAlike_boxField (type : Symbol) : EndsAlike (boxField type) := by
  unfold boxField
  infer_instance

instance endsAlike_boxType (generic : Bool) : EndsAlike (boxType generic) := by
  unfold boxType
  dsimp only
  infer_instance

instance endsAlike_anonymousContext : EndsAlike anonymousContext := by
  unfold anonymousContext
  infer_instance

theorem endsAlike_specialType? {c : Char} {read : Decode Symbol} (h : specialType? c = some read) :
    EndsAlike read := by
  unfold specialType? at h
  split at h <;> cases h <;> infer_instance

theorem endsAlike_contextDescriptor? {c : Char} {read : Decode Symbol}
    (h : contextDescriptor? c = some read) : EndsAlike read := by
  unfold contextDescriptor? at h
  split at h <;> cases h <;> infer_instance

instance endsAlike_contextDescriptor : EndsAlike contextDescriptor :=
  endsAlike_meaning endsAlike_contextDescriptor?

theorem endsAlike_metadata? {c : Char} {read : Decode Symbol} (h : metadata? c = some read) :
    EndsAlike read := by
  unfold metadata? at h
  split at h
  case h_7 =>
    obtain ⟨kind, -, rfl⟩ := Option.map_eq_some_iff.mp h
    infer_instance
  all_goals cases h; infer_instance

instance endsAlike_valueWitness : EndsAlike valueWitness := by
  unfold valueWitness
  infer_instance

instance endsAlike_outlinedOperation : EndsAlike outlinedOperation := by
  unfold outlinedOperation
  infer_instance

instance endsAlike_fieldOffset : EndsAlike fieldOffset := by
  unfold fieldOffset
  infer_instance

instance endsAlike_lazyTable (k : Kind) : EndsAlike (lazyTable k) := by
  unfold lazyTable
  infer_instance

theorem endsAlike_witness? {c : Char} {read : Decode Symbol} (h : witness? c = some read) :
    EndsAlike read := by
  unfold witness? at h
  split at h
  case h_9 =>
    obtain ⟨kind, -, rfl⟩ := Option.map_eq_some_iff.mp h
    infer_instance
  all_goals cases h; infer_instance

/-! ## Thunks and specializations -/

instance endsAlike_wrapEntity (k : Kind) : EndsAlike (wrapEntity k) := by
  unfold wrapEntity
  infer_instance

instance endsAlike_reabstractionThunk (k : Kind) : EndsAlike (reabstractionThunk k) := by
  unfold reabstractionThunk
  infer_instance

instance endsAlike_keyPathAccessor (k : Kind) : EndsAlike (keyPathAccessor k) := by
  unfold keyPathAccessor
  dsimp only
  infer_instance

instance endsAlike_keyPathIndexOperation (k : Kind) : EndsAlike (keyPathIndexOperation k) := by
  unfold keyPathIndexOperation
  infer_instance

instance endsAlike_associatedConformance (k : Kind) : EndsAlike (associatedConformance k) := by
  unfold associatedConformance
  infer_instance

instance endsAlike_bridgedFlags (n : Nat) : EndsAlike (bridgedFlags n) := by
  induction n with
  | zero => exact endsAlike_fail _
  | succ n ih =>
    unfold bridgedFlags
    infer_instance

instance endsAlike_bridgedMethod : EndsAlike bridgedMethod := by
  have := endsAlike_rounds bridgedFlags fun hn =>
    terminates_bridgedFlags.stable (a := ()) hn
  have hbody : EndsAlike (do
      let form := Char.ofUInt8 (← Scan.next)
      ensure (form == 'p' || form == 'a' || form == 'm')
      let flags ← bridgedFlags (← Scan.remaining)
      return .ofText .outlinedBridgedMethod (String.ofList (form :: flags)) : Decode Symbol) := by
    refine EndsAlike.then fun form => EndsAlike.then fun _ => ?_
    exact EndsAlike.then (x := (liftM Scan.remaining : Decode Nat) >>= bridgedFlags) fun _ => inferInstance
  refine EndsAlike.then fun empty => ?_
  dsimp only
  split
  · exact EndsAlike.then fun _ => hbody
  · exact hbody

instance endsAlike_specializationHead : EndsAlike specializationHead := by
  unfold specializationHead
  infer_instance

instance endsAlike_genericSpecialization (k : Kind) : EndsAlike (genericSpecialization k) := by
  unfold genericSpecialization
  infer_instance

instance endsAlike_partialSpecialization (k : Kind) : EndsAlike (partialSpecialization k) := by
  unfold partialSpecialization
  infer_instance

instance endsAlike_numberLiteral : EndsAlike numberLiteral := by
  have := Scan.endsAlike_takeWhile (p := (Char.ofUInt8 · |>.isDigit)) (by decide)
  unfold numberLiteral
  infer_instance

theorem endsAlike_readFlags (flags : List (Char × ParamChange))
    (h : ∀ f ∈ flags, Scan.IsLetter f.1) : ∀ value, EndsAlike (readFlags value flags) := by
  induction flags with
  | nil => exact fun value => endsAlike_pure value
  | cons f fs ih =>
    intro value
    have := h f List.mem_cons_self
    have := ih fun g hg => h g (List.mem_cons_of_mem _ hg)
    unfold readFlags
    infer_instance

theorem isLetter_flag (flag : ParamChange) : ∀ f ∈ flagLetters flag, Scan.IsLetter f.1 := by
  have h : ∀ f ∈ flagLetters flag, f.1.toUInt8 ≠ Cell.stop.byte := by cases flag <;> decide
  exact fun f hf => ⟨h f hf⟩

instance endsAlike_flagRecord (flag : ParamChange) : EndsAlike (flagRecord flag) := by
  have := endsAlike_readFlags (flagLetters flag) (isLetter_flag flag)
  unfold flagRecord
  infer_instance

theorem endsAlike_constantRecord? {c : Char} {read : Decode (List Symbol)}
    (h : constantRecord? c = some read) : EndsAlike read := by
  unfold constantRecord? at h
  split at h <;> cases h <;> infer_instance

theorem endsAlike_changeRecord? {c : Char} {read : Decode (List Symbol)}
    (h : changeRecord? c = some read) : EndsAlike read := by
  unfold changeRecord? at h
  split at h <;> cases h
  case h_3 => exact endsAlike_meaning endsAlike_constantRecord?
  all_goals infer_instance

instance endsAlike_changeRecord : EndsAlike changeRecord :=
  endsAlike_meaning endsAlike_changeRecord?

instance endsAlike_paramRecords (n : Nat) : ∀ i, EndsAlike (paramRecords n i) := by
  induction n with
  | zero => exact fun _ => endsAlike_fail _
  | succ n ih =>
    intro i
    unfold paramRecords
    infer_instance

instance endsAlike_returnRecord : EndsAlike returnRecord := by
  unfold returnRecord
  infer_instance

instance endsAlike_popPayload (change : ParamChange) : EndsAlike (popPayload change) := by
  unfold popPayload
  infer_instance

instance endsAlike_attach (record : Symbol) : EndsAlike (attach record) := by
  unfold attach
  split
  · infer_instance
  · split
    · infer_instance
    · refine EndsAlike.then fun _ => ?_
      split <;> infer_instance

instance endsAlike_attachAll (records : List Symbol) : ∀ acc, EndsAlike (attachAll records acc) := by
  induction records with
  | nil => exact fun acc => endsAlike_pure acc
  | cons r rs ih =>
    intro acc
    unfold attachAll
    infer_instance

theorem changeRecord?_digit {c : Char} (h : c.isDigit = true) : changeRecord? c = none := by
  unfold changeRecord?
  split <;> first | rfl | exact absurd h (by decide)

/-- The records of parameters do not end with a digit. -/
theorem paramRecords_digit {n : Nat} {i : UInt64} {s s' : State} {x : Cell} {records : List Symbol}
    (hr : s.cursor.rest = [x]) (hx : x.isDigit = true) : paramRecords n i s ≠ .ok records s' := by
  intro h
  cases n with
  | zero => cases h
  | succ n =>
    have hbyte : (x.byte == '_'.toUInt8) = false := by
      rw [beq_eq_false_iff_ne]
      intro hbyte
      rw [Cell.isDigit, Cell.letter, hbyte] at hx
      exact absurd hx (by decide)
    have hmark : Scan.accept '_' s.cursor = .ok false s.cursor := by
      unfold Scan.accept Scan.acceptByte
      rw [hr]
      simp only [hbyte, Bool.false_eq_true, if_false]
    obtain ⟨done, t, ht, h⟩ := bind_eq_ok h
    obtain ⟨d, hd, rfl⟩ := lift_eq_ok ht
    cases hmark.symm.trans hd
    obtain ⟨changes, u, hu, -⟩ := bind_eq_ok h
    obtain ⟨read, v, hv, -⟩ := bind_eq_ok hu
    cases (changeRecord?_digit hx).symm.trans (meaning_of_next hr hv)

instance endsAlike_signatureSpecialization : EndsAlike signatureSpecialization := by
  have := endsAlike_rounds (fun n => paramRecords n 0) fun hn =>
    terminates_paramRecords.stable hn
  refine EndsAlike.then fun head => ?_
  refine @endsAlike_integer? _ _ (fun unique => ?_) fun {n s b s' x} hr hx h => ?_
  · exact EndsAlike.then (x := (liftM Scan.remaining : Decode Nat) >>= fun n => paramRecords n 0)
      fun _ => inferInstance
  · obtain ⟨_, t, ht, h⟩ := bind_eq_ok h
    cases ht
    obtain ⟨records, u, hu, -⟩ := bind_eq_ok h
    exact paramRecords_digit hr hx hu

theorem endsAlike_thunk? {c : Char} {read : Decode Symbol} (h : thunk? c = some read) :
    EndsAlike read := by
  unfold thunk? at h
  split at h <;> cases h <;> infer_instance

/-- **Operators told by a letter** do the same at the end of the input and in front of a full stop. -/
theorem endsAlike_operator? {c : Char} {run : Decode Symbol} (h : operator? c = some run) :
    EndsAlike run := by
  have : EndsAlike metadata := endsAlike_meaning endsAlike_metadata?
  have : EndsAlike thunk := endsAlike_meaning endsAlike_thunk?
  have : EndsAlike witness := endsAlike_meaning endsAlike_witness?
  have : EndsAlike specialType := endsAlike_meaning endsAlike_specialType?
  have : EndsAlike singleSignature := endsAlike_popSignatureWith [1]
  unfold operator? at h
  split at h <;> cases h <;> infer_instance

end Decode

end Demangle
