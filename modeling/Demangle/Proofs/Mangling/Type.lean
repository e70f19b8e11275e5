import Demangle.Proofs.Run

/-!
# A language of types and its mangling

Types made of nominal types, optionals, tuples, functions, metatypes, `inout` and generic arguments, with
the mangled spelling of each (`Ty.mangle`) and the tree it stands for (`Ty.tree`). Both follow the
structure of the type: a spelling is postfix, the parts of a type first and then its operator.
-/

namespace Demangle

open Symbol

/-! ## Types -/

/-- A name of a declaration or a label. -/
structure Name where
  text : String
  isName : Decode.IsName text

/-- The kinds of declarations that a path can go through. -/
inductive Declaration where
  | classDecl
  | structDecl
  | enumDecl
  deriving DecidableEq, Inhabited, Repr

/-- A nominal type: one of the standard library, told by a letter, or one that is found in a module by a
path of declarations, the outermost first. -/
inductive Nominal where
  | standard (letter : Char) (kind : Kind) (name : String)
      (known : Decode.standardType? letter = some (kind, name))
  | declared (moduleName : Name) (outer : List (Declaration × Name)) (last : Declaration × Name)

/-- An element of a tuple. -/
structure Element (α : Type) where
  type : α
  label : Option Name
  variadic : Bool

/-- A type. -/
inductive Ty where
  | nominal (n : Nominal)
  | optional (wrapped : Ty)
  | tuple (elements : List (Element Ty))
  | function (throws : Bool) (params result : Ty)
  | metatype (t : Ty)
  | inOut (t : Ty)
  | bound (n : Nominal) (first : Ty) (others : List Ty)

/-! ## Spelling -/

/-- A name is spelled by its size in bytes and itself. -/
def Name.mangle (n : Name) : String :=
  toString n.text.utf8ByteSize ++ n.text

/-- The letter that spells a declaration. -/
def Declaration.letter : Declaration → Char
  | .classDecl => 'C'
  | .structDecl => 'V'
  | .enumDecl => 'O'

/-- Each step of a path is the name and the kind of a declaration. -/
def manglePath : List (Declaration × Name) → String
  | [] => ""
  | (d, n) :: path => n.mangle ++ String.singleton d.letter ++ manglePath path

def Nominal.mangle : Nominal → String
  | .standard letter _ _ _ => "S" ++ String.singleton letter
  | .declared moduleName outer last => moduleName.mangle ++ manglePath (outer ++ [last])

/-- The empty tuple. -/
def Ty.isUnit : Ty → Bool
  | .tuple [] => true
  | _ => false

/-- What follows the type of an element: its label and its mark. -/
def Element.mangleRest {α : Type} (e : Element α) : String :=
  e.label.elim "" Name.mangle ++ (if e.variadic then "d" else "")

mutual

/-- The spelling of a type. The empty tuple as the parameters or the result of a function is an empty
list. -/
def Ty.mangle : Ty → String
  | .nominal n => n.mangle
  | .optional wrapped => wrapped.mangle ++ "Sg"
  | .tuple [] => "yt"
  | .tuple (⟨type, label, variadic⟩ :: es) =>
    type.mangle ++ (Element.mk type label variadic).mangleRest ++ "_" ++ mangleElements es ++ "t"
  | .function throws params result =>
    (if result.isUnit then "y" else result.mangle) ++ (if params.isUnit then "y" else params.mangle) ++
      (if throws then "K" else "") ++ "c"
  | .metatype t => t.mangle ++ "m"
  | .inOut t => t.mangle ++ "z"
  | .bound n first others => n.mangle ++ "y" ++ first.mangle ++ mangleAll others ++ "G"

def mangleElements : List (Element Ty) → String
  | [] => ""
  | ⟨type, label, variadic⟩ :: es =>
    type.mangle ++ (Element.mk type label variadic).mangleRest ++ mangleElements es

def mangleAll : List Ty → String
  | [] => ""
  | t :: ts => t.mangle ++ mangleAll ts

end

/-! ## Trees -/

def Declaration.kind : Declaration → Kind
  | .classDecl => .classType
  | .structDecl => .structType
  | .enumDecl => .enumType

/-- The declaration at the end of a path that starts in a context. -/
def pathTree (context : Symbol) : List (Declaration × Name) → Symbol
  | [] => context
  | (d, n) :: path => pathTree (node d.kind [context, ofText .identifier n.text]) path

def Nominal.kind : Nominal → Kind
  | .standard _ kind _ _ => kind
  | .declared _ _ last => last.1.kind

def Nominal.body : Nominal → Symbol
  | .standard _ kind name _ =>
    node kind [ofText .moduleName standardModule, ofText .identifier name]
  | .declared moduleName outer last => pathTree (ofText .moduleName moduleName.text) (outer ++ [last])

/-- The kind of a nominal type with arguments. -/
def boundOf : Kind → Kind
  | .classType => .boundGenericClass
  | .structType => .boundGenericStructure
  | .enumType => .boundGenericEnum
  | _ => .boundGenericProtocol

/-- The number of parameters that the type of all parameters stands for. -/
def Ty.arity : Ty → Nat
  | .tuple elements => elements.length
  | _ => 1

/-- An element around the tree of its type. -/
def Element.tree {α : Type} (e : Element α) (type : Symbol) : Symbol :=
  node .tupleElement ((if e.variadic then [leaf .variadicMarker] else []) ++
    (e.label.map fun n => ofText .tupleElementName n.text).toList ++ [type])

mutual

/-- What the tree of a type holds under its `Type` node. -/
def Ty.body : Ty → Symbol
  | .nominal n => n.body
  | .optional wrapped =>
    node .boundGenericEnum
      [standardType .enumType "Optional", node .typeList [node .type [wrapped.body]]]
  | .tuple elements => node .tuple (elementTrees elements)
  | .function throws params result =>
    node .functionType ((if throws then [leaf .throwsMark] else []) ++
      [make .argumentTuple (.index (UInt64.ofNat params.arity)) [node .type [params.body]],
        node .returnType [node .type [result.body]]])
  | .metatype t => node .metatype [node .type [t.body]]
  | .inOut t => node .inOut [t.body]
  | .bound n first others =>
    node (boundOf n.kind)
      [node .type [n.body], node .typeList (node .type [first.body] :: trees others)]

def elementTrees : List (Element Ty) → List Symbol
  | [] => []
  | ⟨type, label, variadic⟩ :: es =>
    (Element.mk type label variadic).tree (node .type [type.body]) :: elementTrees es

def trees : List Ty → List Symbol
  | [] => []
  | t :: ts => node .type [t.body] :: trees ts

end

/-- The tree of a type. -/
def Ty.tree (t : Ty) : Symbol :=
  node .type [t.body]

/-! ## Parts -/

/-- The types that a type is made of. -/
def Ty.parts : Ty → List Ty
  | .nominal _ => []
  | .optional t | .metatype t | .inOut t => [t]
  | .tuple es => es.map Element.type
  | .function _ params result => [params, result]
  | .bound _ first others => first :: others

/-- **Induction over the parts of a type.** -/
theorem Ty.partInduction {motive : Ty → Prop} (step : ∀ t, (∀ p ∈ t.parts, motive p) → motive t)
    (t : Ty) : motive t := by
  refine @Ty.rec motive (fun es => ∀ p ∈ es.map Element.type, motive p)
    (fun ts => ∀ p ∈ ts, motive p) (fun e => motive e.type) ?nominal ?optional ?tuple ?function
    ?metatype ?inOut ?bound ?noElement ?elements ?noType ?types ?element t
  case nominal => exact fun n => step _ nofun
  case optional | metatype | inOut => exact fun t ht => step _ (by simpa [parts] using ht)
  case tuple => exact fun es hes => step _ hes
  case function => exact fun _ params result hp hr => step _ (by simp [parts, hp, hr])
  case bound => exact fun n first others hf ho => step _ (List.forall_mem_cons.mpr ⟨hf, ho⟩)
  case noElement | noType => exact nofun
  case elements | types => exact fun _ _ h hs => List.forall_mem_cons.mpr ⟨h, hs⟩
  case element => exact fun _ _ _ h => h

/-! ## Lists of types -/

theorem elementTrees_eq (es : List (Element Ty)) :
    elementTrees es = es.map fun e => e.tree e.type.tree := by
  induction es with
  | nil => rfl
  | cons e es ih =>
    rw [elementTrees, ih]
    rfl

theorem trees_eq (ts : List Ty) : trees ts = ts.map Ty.tree := by
  induction ts with
  | nil => rfl
  | cons t ts ih =>
    rw [trees, ih]
    rfl

theorem mangle_tuple (e : Element Ty) (es : List (Element Ty)) :
    (Ty.tuple (e :: es)).mangle =
      e.type.mangle ++ e.mangleRest ++ "_" ++ mangleElements es ++ "t" := by
  cases e
  rw [Ty.mangle]

theorem mangleElements_cons (e : Element Ty) (es : List (Element Ty)) :
    mangleElements (e :: es) = e.type.mangle ++ e.mangleRest ++ mangleElements es := by
  cases e
  rw [mangleElements]

/-! ## The trees of parts -/

/-- **A part is less deep than the whole.** -/
theorem Ty.depth_part {t p : Ty} (h : p ∈ t.parts) : p.tree.depth < t.tree.depth := by
  have htree : t.body.depth < t.tree.depth := depth_lt_node _ List.mem_cons_self
  cases t with
  | nominal n => cases h
  | optional t =>
    rw [List.mem_singleton.mp h]
    have hlist : t.tree.depth < (node .typeList [t.tree]).depth := depth_lt_node _ List.mem_cons_self
    have hbody : (node .typeList [t.tree]).depth < (Ty.optional t).body.depth :=
      depth_lt_node _ (by simp [Ty.tree])
    omega
  | tuple es =>
    obtain ⟨e, he, rfl⟩ := List.mem_map.mp h
    have helement : e.type.tree.depth < (e.tree e.type.tree).depth := depth_lt_node _ (by simp)
    have hbody : (e.tree e.type.tree).depth < (Ty.tuple es).body.depth := by
      rw [Ty.body, elementTrees_eq]
      exact depth_lt_node _ (List.mem_map_of_mem he)
    omega
  | function throws params result =>
    let arguments := make .argumentTuple (.index (UInt64.ofNat params.arity)) [params.tree]
    have hparams : params.tree.depth < arguments.depth := depth_lt_make _ _ List.mem_cons_self
    have hresult : result.tree.depth < (node .returnType [result.tree]).depth :=
      depth_lt_node _ List.mem_cons_self
    have hparams' : arguments.depth < (Ty.function throws params result).body.depth :=
      depth_lt_node _ (by simp [arguments, Ty.tree])
    have hresult' : (node .returnType [result.tree]).depth <
        (Ty.function throws params result).body.depth := depth_lt_node _ (by simp [Ty.tree])
    rcases List.mem_cons.mp h with rfl | h
    · omega
    · rw [List.mem_singleton.mp h]
      omega
  | metatype t =>
    rw [List.mem_singleton.mp h]
    have hbody : t.tree.depth < (Ty.metatype t).body.depth := depth_lt_node _ List.mem_cons_self
    omega
  | inOut t =>
    rw [List.mem_singleton.mp h]
    -- The type under `inout` has no `Type` node of its own.
    exact htree
  | bound n first others =>
    have hlist : p.tree.depth < (node .typeList ((first :: others).map Ty.tree)).depth :=
      depth_lt_node _ (List.mem_map_of_mem h)
    have hbody : (node .typeList ((first :: others).map Ty.tree)).depth <
        (Ty.bound n first others).body.depth := by
      rw [Ty.body, trees_eq]
      exact depth_lt_node _ (by simp [Ty.tree])
    omega

theorem exact_pathTree (path : List (Declaration × Name)) : ∀ c : Symbol, c.Exact →
    (pathTree c path).Exact := by
  induction path with
  | nil => exact fun c hc => hc
  | cons p path ih => exact fun c hc => ih _ (exact_node (by simp [hc, exact_ofText]))

theorem Nominal.exact_body (n : Nominal) : n.body.Exact := by
  cases n with
  | standard letter kind name known => exact exact_node (by simp [exact_ofText])
  | declared moduleName outer last => exact exact_pathTree _ _ (exact_ofText _ _)

theorem Element.exact_tree {α : Type} (e : Element α) {type : Symbol} (h : type.Exact) :
    (e.tree type).Exact := by
  obtain ⟨_, label, variadic⟩ := e
  cases variadic <;> cases label <;>
    exact exact_node (by simp [h, exact_leaf, exact_ofText])

theorem Ty.exact_tree (t : Ty) : t.tree.Exact := by
  induction t using Ty.partInduction with
  | step t ih =>
    refine exact_single ?_
    cases t with
    | nominal n => exact n.exact_body
    | optional t =>
      have hoptional : (standardType .enumType "Optional").Exact :=
        (Constructed.standardType _ _).exact
      have hlist : (node .typeList [t.tree]).Exact := exact_single (ih t List.mem_cons_self)
      exact exact_node (List.forall_mem_cons.mpr ⟨hoptional, List.forall_mem_singleton.mpr hlist⟩)
    | tuple es =>
      rw [Ty.body, elementTrees_eq]
      refine exact_node fun c hc => ?_
      obtain ⟨e, he, rfl⟩ := List.mem_map.mp hc
      exact e.exact_tree (ih e.type (List.mem_map_of_mem he))
    | function throws params result =>
      have hparams : (make .argumentTuple (.index (UInt64.ofNat params.arity)) [params.tree]).Exact :=
        exact_make (List.forall_mem_singleton.mpr (ih params (by simp [parts])))
      have hresult : (node .returnType [result.tree]).Exact :=
        exact_single (ih result (by simp [parts]))
      rw [Ty.tree] at hparams hresult
      cases throws <;> exact exact_node (by simp [exact_leaf, hparams, hresult])
    | metatype t => exact exact_single (ih t List.mem_cons_self)
    | inOut t => exact exact_single ((ih t List.mem_cons_self).child List.mem_cons_self)
    | bound n first others =>
      have hargs : (node .typeList ((first :: others).map Ty.tree)).Exact := by
        refine exact_node fun c hc => ?_
        obtain ⟨t, ht, rfl⟩ := List.mem_map.mp hc
        exact ih t ht
      have hn : (node .type [n.body]).Exact := exact_single n.exact_body
      rw [Ty.body, trees_eq]
      exact exact_node (List.forall_mem_cons.mpr ⟨hn, List.forall_mem_singleton.mpr hargs⟩)

end Demangle
