import Mathlib.Tactic.SplitIfs
import Fanout.Value

/-! # The bytes of a string

A string is written in UTF-8. A lower character has lower bytes, and no character's bytes begin
those of another one, so strings stand in the order of their bytes.
-/
namespace Fanout.Text

def bytes (s : String) : List UInt8 := s.toUTF8.data.toList

theorem bytes_eq_flatMap (s : String) : bytes s = s.toList.flatMap String.utf8EncodeChar := by
  rw [bytes, String.toUTF8_eq_toByteArray, ← String.utf8Encode_toList, List.utf8Encode,
    List.toList_data_toByteArray]

/-- Lists of bytes are compared at their heads, and behind equal heads at their tails. -/
theorem ofNat_cons_lt {a b : Nat} {r s : List UInt8} (hb : b < 256) (hab : a ≤ b)
    (hrs : a = b → r < s) : UInt8.ofNat a :: r < UInt8.ofNat b :: s := by
  have ha : a < 256 := by omega
  rw [List.cons_lt_cons_iff, UInt8.lt_iff_toNat_lt, UInt8.toNat_ofNat_of_lt' ha,
    UInt8.toNat_ofNat_of_lt' hb]
  rcases Nat.lt_or_eq_of_le hab with hlt | rfl
  · exact .inl hlt
  · exact .inr ⟨rfl, hrs rfl⟩

theorem ofNat_cons_lt_of_lt {a b : Nat} {r s : List UInt8} (hb : b < 256) (hab : a < b) :
    UInt8.ofNat a :: r < UInt8.ofNat b :: s :=
  ofNat_cons_lt hb (Nat.le_of_lt hab) fun heq => absurd heq (Nat.ne_of_lt hab)

theorem utf8EncodeChar_lt {c d : Char} (h : c < d) (r s : List UInt8) :
    String.utf8EncodeChar c ++ r < String.utf8EncodeChar d ++ s := by
  have hlt : c.val.toNat < d.val.toNat := h
  have hd : d.val.toNat < 0x110000 := by
    rcases d.valid with hv | hv <;> omega
  unfold String.utf8EncodeChar
  generalize c.val.toNat = m at hlt ⊢
  generalize d.val.toNat = n at hlt hd ⊢
  dsimp only
  -- characters of different widths differ in the first byte, those of one width in any of theirs
  split_ifs <;> simp only [List.cons_append, List.nil_append] <;> try first
    | exact ofNat_cons_lt_of_lt (by omega) (by omega)
    | exact ofNat_cons_lt (by omega) (by omega) fun _ => ofNat_cons_lt_of_lt (by omega) (by omega)
  · exact ofNat_cons_lt (by omega) (by omega) fun _ =>
      ofNat_cons_lt (by omega) (by omega) fun _ => ofNat_cons_lt_of_lt (by omega) (by omega)
  · exact ofNat_cons_lt (by omega) (by omega) fun _ =>
      ofNat_cons_lt (by omega) (by omega) fun _ =>
        ofNat_cons_lt (by omega) (by omega) fun _ => ofNat_cons_lt_of_lt (by omega) (by omega)

theorem append_lt_append_left {r s : List UInt8} (l : List UInt8) (h : r < s) :
    l ++ r < l ++ s := by
  induction l with
  | nil => exact h
  | cons b l ih => exact List.cons_lt_cons_iff.mpr (.inr ⟨rfl, ih⟩)

theorem flatMap_utf8EncodeChar_lt {cs ds : List Char} (h : cs < ds) :
    cs.flatMap String.utf8EncodeChar < ds.flatMap String.utf8EncodeChar := by
  induction cs generalizing ds with
  | nil =>
    cases ds with
    | nil => exact absurd h (List.not_lt_nil _)
    | cons d ds =>
      have hpos : 0 < (String.utf8EncodeChar d).length := by
        rw [String.length_utf8EncodeChar]
        exact Char.utf8Size_pos d
      obtain ⟨b, bs, hd⟩ := List.exists_cons_of_length_pos hpos
      rw [List.flatMap_nil, List.flatMap_cons, hd]
      exact List.nil_lt_cons _ _
  | cons c cs ih =>
    cases ds with
    | nil => exact absurd h (List.not_lt_nil _)
    | cons d ds =>
      rw [List.flatMap_cons, List.flatMap_cons]
      rcases List.cons_lt_cons_iff.mp h with hlt | ⟨rfl, htail⟩
      · exact utf8EncodeChar_lt hlt _ _
      · exact append_lt_append_left _ (ih htail)

theorem bytes_lt_bytes_iff {s t : String} : bytes s < bytes t ↔ s < t := by
  have mono {s t : String} (h : s < t) : bytes s < bytes t := by
    rw [bytes_eq_flatMap, bytes_eq_flatMap]
    exact flatMap_utf8EncodeChar_lt h
  constructor
  · intro h
    rcases Std.lt_trichotomy s t with hst | rfl | hts
    · exact hst
    · exact absurd h (List.lt_irrefl _)
    · exact absurd (mono hts) (List.lt_asymm h)
  · exact mono

end Fanout.Text
