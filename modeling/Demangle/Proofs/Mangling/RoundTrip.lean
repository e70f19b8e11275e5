import Demangle.Proofs.Mangling.Spelling

/-!
# Decoding inverts the mangling of types

The spelling of a type, wherever it stands, pushes the tree of the type and leaves the operands below
alone (`spells_type`). The induction is over the parts of the type. All trees on the way are less deep
than the last one (`Ty.depth_part`), so the check of the depth passes if that one is not too deep.

    decode ("$s" ++ t.mangle ++ "D") = .ok (node .global [node .typeMangling [t.tree]])
-/

namespace Demangle

open Symbol Decode

/-- **The spelling of a type pushes its tree**, wherever it stands. -/
theorem spells_type (t : Ty) : ∀ below : List Symbol, t.tree.depth ≤ nestingLimit →
    Spells t.mangle below (t.tree :: below) := by
  induction t using Ty.partInduction with
  | step t ih =>
    intro below hdepth
    have hparts : ∀ p ∈ t.parts, ∀ below, Spells p.mangle below (p.tree :: below) := by
      intro p hp below
      have hlt := Ty.depth_part hp
      exact ih p hp below (by omega)
    cases t with
    | nominal n => exact spells_nominal n below hdepth
    | optional t =>
      rw [Ty.mangle]
      exact (hparts t List.mem_cons_self below).append (spells_optional rfl below hdepth)
    | tuple es =>
      exact spells_tuple es below (fun e he => hparts e.type (List.mem_map_of_mem he)) hdepth
    | function throws params result =>
      have hparams := hparts params (by simp [Ty.parts])
      have hresult := hparts result (by simp [Ty.parts])
      exact spells_function throws params result below hparams (hresult below) hdepth
    | metatype t =>
      rw [Ty.mangle]
      refine (hparts t List.mem_cons_self below).append
        (spells_letter (c := 'm') rfl hdepth fun s hs => ?_)
      exact ⟨_, bind_ok (popType_hit hs rfl) _, rfl, rfl⟩
    | inOut t =>
      rw [Ty.mangle]
      refine (hparts t List.mem_cons_self below).append
        (spells_letter (c := 'z') rfl hdepth fun s hs => ?_)
      exact ⟨_, bind_ok (popTypeChild_hit hs) _, rfl, rfl⟩
    | bound n first others => exact spells_bound n first others below hparts hdepth

/-- **Decoding inverts the mangling of types.** -/
theorem decode_mangle (t : Ty)
    (h : (node .global [node .typeMangling [t.tree]]).height ≤ nestingLimit) :
    decode ("$s" ++ t.mangle ++ "D") = .ok (node .global [node .typeMangling [t.tree]]) := by
  have hexact : (node .global [node .typeMangling [t.tree]]).Exact :=
    exact_single (exact_single t.exact_tree)
  rw [hexact.height_eq_depth] at h
  have hmangling : (node .typeMangling [t.tree]).depth <
      (node .global [node .typeMangling [t.tree]]).depth := depth_lt_node _ (by simp)
  have htree : t.tree.depth < (node .typeMangling [t.tree]).depth := depth_lt_node _ (by simp)
  have hspells : Spells (t.mangle ++ "D") [] [node .typeMangling [t.tree]] := by
    refine (spells_type t [] (by omega)).append (spells_letter (c := 'D') rfl (by omega) ?_)
    exact fun s hs => ⟨_, bind_ok (popType_hit hs rfl) _, rfl, rfl⟩
  rw [String.append_assoc]
  exact decode_of_spells hspells rfl nofun h

/-- A throwing function that takes a labelled variadic parameter and an `inout` optional, and returns a
dictionary. -/
def sampleType : Ty :=
  .function true
    (.tuple [
      ⟨.nominal (.declared ⟨"main", by decide, by simp, by decide⟩
        [(.classDecl, ⟨"Outer", by decide, by simp, by decide⟩)]
        (.structDecl, ⟨"Inner", by decide, by simp, by decide⟩)),
        some ⟨"étés", by decide, by simp, by decide⟩, true⟩,
      ⟨.inOut (.optional (.nominal (.standard 'i' _ _ rfl))), none, false⟩])
    (.bound (.standard 'D' _ _ rfl) (.nominal (.standard 'S' _ _ rfl))
      [.metatype (.nominal (.standard 'i' _ _ rfl))])

theorem decode_mangle_sample :
    sampleType.mangle = "SDySSSimG4main5OuterC5InnerV6étésd_SiSgztKc" ∧
      decode ("$s" ++ sampleType.mangle ++ "D") =
        .ok (node .global [node .typeMangling [sampleType.tree]]) :=
  ⟨by decide +kernel, decode_mangle sampleType (by decide +kernel)⟩

end Demangle
