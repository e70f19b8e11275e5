import Demangle.Kind.Name
import Demangle.Proofs.Cursor.Cell

/-!
# Names of kinds

The names of the kinds are different from each other and hold neither blanks nor line feeds. Both are read off
the bytes of the names in one go: a `register` has the number of each kind at a place that depends on nothing
but the bytes of its name, and each kind is found at its place (`names_checked`).
-/

namespace Demangle.Kind

/-- The bytes of the name of a kind. -/
def nameBytes (k : Kind) : List UInt8 :=
  k.name.toByteArray.data.toList

/-- The place of a name in the register: its bytes as one number, reduced. -/
def place (bytes : List UInt8) : Nat :=
  bytes.foldl (fun n b => 256 * n + b.toNat) 0 % 2713

/-- The numbers of all kinds, each in the byte at the place of its name. -/
def register : Nat :=
  all.foldr (fun k r => k.ctorIdx <<< (8 * place k.nameBytes) ||| r) 0

/-- Each kind is at its place, and its name has a byte at least, none of them a blank or a control character. -/
theorem names_checked : ∀ n < 211, register >>> (8 * place (ofNat n).nameBytes) % 256 = n ∧
    (ofNat n).nameBytes ≠ [] ∧ (ofNat n).nameBytes.all (0x20 < ·.toNat) = true := by
  -- the bytes are checked by `List.all`: a quantifier over them may be decided over all bytes there are
  decide +kernel

theorem ctorIdx_lt (k : Kind) : k.ctorIdx < 211 := by
  cases k <;> decide

theorem name_checked (k : Kind) : register >>> (8 * place k.nameBytes) % 256 = k.ctorIdx ∧
    k.nameBytes ≠ [] ∧ ∀ b ∈ k.nameBytes, 0x20 < b.toNat := by
  have h := names_checked k.ctorIdx (ctorIdx_lt k)
  rw [ofNat_ctorIdx, List.all_eq_true] at h
  exact ⟨h.1, h.2.1, fun b hb => of_decide_eq_true (h.2.2 b hb)⟩

/-- **Different kinds have different names.** -/
theorem name_injective {k k' : Kind} (h : k.name = k'.name) : k = k' := by
  have hbytes : k.nameBytes = k'.nameBytes := by rw [nameBytes, h, nameBytes]
  have hindex : k.ctorIdx = k'.ctorIdx := by
    rw [← (name_checked k).1, hbytes, (name_checked k').1]
  rw [← ofNat_ctorIdx k, hindex, ofNat_ctorIdx]

theorem nameBytes_eq (k : Kind) : k.nameBytes = k.name.toList.flatMap String.utf8EncodeChar := by
  rw [nameBytes, ← String.utf8Encode_toList, List.utf8Encode, List.data_toByteArray]

theorem name_ne_nil (k : Kind) : k.name.toList ≠ [] := by
  intro hnil
  refine (name_checked k).2.1 ?_
  rw [nameBytes_eq, hnil, List.flatMap_nil]

/-- A character of ASCII in the name of a kind is neither a blank nor a control character. -/
theorem printed_of_mem_name {k : Kind} {c : Char} (hc : c ∈ k.name.toList) (hlow : c.toNat < 0x80) :
    0x20 < c.toNat := by
  have hbyte : c.toUInt8 ∈ k.nameBytes := by
    rw [nameBytes_eq]
    refine List.mem_flatMap.mpr ⟨c, hc, ?_⟩
    rw [Cell.encode_ascii hlow]
    exact List.mem_singleton_self _
  rw [← Cell.toNat_toUInt8 hlow]
  exact (name_checked k).2.2 _ hbyte

theorem blank_not_mem_name (k : Kind) : ' ' ∉ k.name.toList := fun h =>
  absurd (printed_of_mem_name h (by decide)) (by decide)

theorem newline_not_mem_name (k : Kind) : '\n' ∉ k.name.toList := fun h =>
  absurd (printed_of_mem_name h (by decide)) (by decide)

end Demangle.Kind
