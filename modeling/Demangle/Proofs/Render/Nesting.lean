import Demangle.Proofs.Embedding
import Demangle.Proofs.Render.Independence

/-!
# Names inside names, to a depth

A rendering reads names inside names to the depth `embeddingLimit` only, since there are names that come
back inside themselves. Where the names inside a text end sooner, all readings that go as deep as they do
are the same:

    nestsWithin n text → n ≤ n' → readEmbedded g n' text = readEmbedded g n text

So the limit does not show in the text of a tree whose names lie no deeper (`render_of_nestsWithin`), and
a text whose names lie within any depth starts no chain without an end (`ends_of_nestsWithin`).
-/

namespace Demangle

/-- Names lie inside names no deeper than `n`, counted from the text itself: it is no name if `n` is 0, and
if it is a name, this holds one less deep for the texts in its tree. -/
def nestsWithin : Nat → String → Bool
  | 0, text => !(decode text).isOk
  | n + 1, text =>
    match decode text with
    | .ok s => s.nodes.all fun m => nestsWithin n m.textD
    | .error _ => true

variable {g : Guard} {o : Options} {n n' : Nat} {s : Symbol} {text : String}

/-! ## Readings -/

theorem readEmbedded_of_error {f : Fault} (h : decode text = .error f) (n : Nat) :
    readEmbedded g n text = text := by
  cases n <;> simp [readEmbedded, h]

theorem decode_of_nestsWithin_zero (h : nestsWithin 0 text = true) : ∃ f, decode text = .error f := by
  cases hd : decode text with
  | ok s => simp [nestsWithin, hd, Except.isOk, Except.toBool] at h
  | error f => exact ⟨f, rfl⟩

theorem nestsWithin_of_decode (h : nestsWithin (n + 1) text = true) (hd : decode text = .ok s) :
    ∀ m ∈ s.nodes, nestsWithin n m.textD = true := by
  rw [nestsWithin, hd] at h
  exact List.all_eq_true.mp h

theorem decode_empty : ∃ f, decode "" = .error f :=
  ⟨_, rfl⟩

/-- Readings that agree on the texts of a tree read it alike, since the empty text is no name. -/
theorem readAlike_of_texts (h : ∀ m ∈ s.nodes, readEmbedded g n' m.textD = readEmbedded g n m.textD) :
    s.ReadAlike (readEmbedded g n') (readEmbedded g n) where
  empty := by
    obtain ⟨f, hf⟩ := decode_empty
    rw [readEmbedded_of_error hf, readEmbedded_of_error hf]
  text := h

/-- **A reading that goes as deep as the names in a text does not depend on how much deeper it goes.** -/
theorem readEmbedded_of_nestsWithin (h : nestsWithin n text = true) (hn : n ≤ n') :
    readEmbedded g n' text = readEmbedded g n text := by
  induction n generalizing text n' with
  | zero =>
    obtain ⟨f, hf⟩ := decode_of_nestsWithin_zero h
    rw [readEmbedded_of_error hf, readEmbedded_of_error hf]
  | succ n ih =>
    cases hd : decode text with
    | error f => rw [readEmbedded_of_error hd, readEmbedded_of_error hd]
    | ok s =>
      obtain ⟨n', rfl⟩ := Nat.exists_eq_add_one_of_ne_zero (show n' ≠ 0 by omega)
      have alike : s.ReadAlike (readEmbedded g n') (readEmbedded g n) := readAlike_of_texts fun m hm =>
        ih (nestsWithin_of_decode h hd m hm) (by omega)
      rw [readEmbedded, readEmbedded, hd]
      exact renderWith_congr (.refl .full s) alike

/-- **The limit does not show** in the text of a tree whose names lie no deeper. -/
theorem render_of_nestsWithin (h : ∀ m ∈ s.nodes, nestsWithin embeddingLimit m.textD = true)
    (hn : embeddingLimit ≤ n) : renderWith g (readEmbedded g n) o s = g.render o s :=
  renderWith_congr (.refl o s) (readAlike_of_texts fun m hm => readEmbedded_of_nestsWithin (h m hm) hn)

-- a name inside a name
example : nestsWithin 1 "$s4main3fooyyF14$s4main3baryyFTf1pf_n" = false ∧
    nestsWithin 2 "$s4main3fooyyF14$s4main3baryyFTf1pf_n" = true := by decide +kernel

/-! ## Chains -/

/-- A name inside another one is one less deep. -/
theorem nestsWithin_of_embeds {inner : String} (h : Embeds text inner)
    (hn : nestsWithin (n + 1) text = true) : nestsWithin n inner = true := by
  obtain ⟨tree, htree, hinner⟩ := h
  obtain ⟨record, hrecord, hinner⟩ := List.mem_filterMap.mp hinner
  obtain ⟨-, change, payload, rest, hc, hp⟩ := embedded?_eq_some hinner
  have hpayload : payload ∈ tree.nodes := by
    refine Symbol.mem_nodes_trans (m := record) ?_ hrecord
    exact Symbol.mem_nodes_of_child (by simp [hc]) (Symbol.self_mem_nodes payload)
  have htext : payload.textD = inner := by
    rw [Symbol.textD, Symbol.text?, hp]
    rfl
  rw [← htext]
  exact nestsWithin_of_decode hn htree payload hpayload

/-- A text whose names lie within some depth starts no chain that goes on for ever. -/
theorem ends_of_nestsWithin (h : nestsWithin n text = true) : Ends text := by
  rintro ⟨f, rfl, hf⟩
  induction n generalizing f with
  | zero =>
    obtain ⟨tree, htree, -⟩ := hf 0
    obtain ⟨e, he⟩ := decode_of_nestsWithin_zero h
    rw [he] at htree
    cases htree
  | succ n ih => exact ih (fun k => f (k + 1)) (fun k => hf (k + 1)) (nestsWithin_of_embeds (hf 0) h)

end Demangle
