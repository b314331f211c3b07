import StaticSite.Files.Tree

/-!
The order of names by their bytes.

Names are compared by the bytes of their text. Proved here, for all texts:

* `encode_lt`: what starts with a lesser character comes first, whatever follows, by the numbers of
  bytes that the two characters have;
* `bytes_lt_iff`: so texts are in the order of their characters.
-/

namespace StaticSite.Text

/-- The bytes of a text. -/
def bytes (s : String) : List UInt8 := s.toUTF8.data.toList

theorem bytes_eq (s : String) : bytes s = s.toList.flatMap String.utf8EncodeChar := by
  unfold bytes
  rw [String.toUTF8_eq_toByteArray, ← String.utf8Encode_toList]
  exact List.toList_data_toByteArray

theorem bytes_injective : bytes.Injective := fun _ _ h =>
  String.toByteArray_inj.1 (ByteArray.ext (Array.toList_inj.1 h))

theorem cons_ofNat_lt {x y : Nat} {l l' : List UInt8} (hy : y < 256) (hle : x ≤ y)
    (hrest : x = y → l < l') : UInt8.ofNat x :: l < UInt8.ofNat y :: l' := by
  rw [List.cons_lt_cons_iff]
  rcases Nat.lt_or_eq_of_le hle with hlt | rfl
  · left
    rw [UInt8.lt_iff_toNat_lt, UInt8.toNat_ofNat', UInt8.toNat_ofNat',
      Nat.mod_eq_of_lt (Nat.lt_trans hlt hy), Nat.mod_eq_of_lt hy]
    exact hlt
  · exact .inr ⟨rfl, hrest rfl⟩

/-- **Characters.** The bytes of a lesser character come first, whatever follows them: one byte
decides, or the next one does. -/
theorem encode_lt {c d : Char} (h : c < d) (l l' : List UInt8) :
    String.utf8EncodeChar c ++ l < String.utf8EncodeChar d ++ l' := by
  have hlt : c.val.toNat < d.val.toNat := h
  have hmax : d.val.toNat < 0x110000 := by
    rcases d.valid with hd | hd
    · exact Nat.lt_trans hd (by decide)
    · exact hd.2
  unfold String.utf8EncodeChar
  generalize c.val.toNat = v at hlt
  generalize d.val.toNat = w at hlt hmax
  dsimp only
  repeat' split
  all_goals
    simp only [List.cons_append, List.nil_append]
    repeat first
      | omega
      | refine cons_ofNat_lt (by omega) (by omega) fun _ => ?_

theorem flatMap_encode_lt {cs ds : List Char} (h : cs < ds) :
    cs.flatMap String.utf8EncodeChar < ds.flatMap String.utf8EncodeChar := by
  induction ds generalizing cs with
  | nil => exact absurd h (List.not_lt_nil cs)
  | cons d ds ih =>
    cases cs with
    | nil =>
      obtain ⟨x, xs, henc⟩ := List.exists_cons_of_ne_nil (String.utf8EncodeChar_ne_nil (c := d))
      rw [List.flatMap_nil, List.flatMap_cons, henc]
      exact List.nil_lt_cons _ _
    | cons c cs =>
      rw [List.flatMap_cons, List.flatMap_cons]
      rcases List.cons_lt_cons_iff.1 h with hlt | ⟨rfl, hrest⟩
      · exact encode_lt hlt _ _
      · exact List.append_left_lt (ih hrest)

/-- **Bytes.** The bytes of texts are in the order of the texts. -/
theorem bytes_lt_iff {s s' : String} : bytes s < bytes s' ↔ s < s' := by
  have hlt {s s' : String} (h : s < s') : bytes s < bytes s' := by
    rw [bytes_eq, bytes_eq]
    exact flatMap_encode_lt h
  refine ⟨fun h => Decidable.byContradiction fun hnot => ?_, hlt⟩
  by_cases hback : s' < s
  · exact List.lt_asymm h (hlt hback)
  · obtain rfl := String.le_antisymm hback hnot
    exact List.lt_irrefl _ h

end StaticSite.Text
