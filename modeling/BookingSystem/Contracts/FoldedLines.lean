import BookingSystem.Base.Folding
import BookingSystem.Base.Utf8
import BookingSystem.Contracts.Ics
import BookingSystem.Service.Ics

/-!
# Folded lines in both encoders

RFC 5545 allows 75 octets a line, the space of a continuation included. Both encoders cut a line after 75 of the units
their strings are made of, and put the space in front of the next 75, so a second piece that is full is too long. The
TypeScript encoder counts units of UTF-16, of which one can be three octets, and the Go encoder cuts between bytes, also
inside a character. `wellFolded_iff` says for which lines this does no harm.
-/

namespace BookingSystem.Contracts.FoldedLines

open Base Base.Coding

/-- The lines that the TypeScript encoder folds well. -/
def FitsUnits (line : Text) : Prop :=
  (line.length ≤ 75 ∧ utf8Length line ≤ 75) ∨
    (75 < line.length ∧ (∀ a ∈ line.take 75, a < 0x80) ∧ utf8Length (line.drop 75) < 75)

/-- The lines that the Go encoder folds well. -/
def FitsBytes (s : List UInt8) : Prop := s.length < 150 ∧ ¬ utf8.Straddles s 75

/-! ### The loops -/

theorem slices_eq (limit n : ℕ) (t : Text) : Model.Ics.slices limit n t = pieces limit n t := by
  induction n generalizing t with
  | zero => rfl
  | succ n ih =>
    cases t with
    | nil => rfl
    | cons a t => simp only [Model.Ics.slices, pieces, ih]

theorem foldFrom_eq {limit n i : ℕ} {s : List UInt8} (hlimit : 0 < limit) (hi : 0 < i) :
    Service.Ics.foldFrom limit s n i = (pieces limit n (s.drop i)).flatMap fun p => utf8.fold ++ p := by
  induction n generalizing i with
  | zero => rfl
  | succ n ih =>
    rw [Service.Ics.foldFrom, if_pos hi]
    split
    · rename_i hlt
      have hpos : 0 < (s.drop i).length := by
        rw [List.length_drop]
        omega
      have hpieces : pieces limit (n + 1) (s.drop i) =
          (s.drop i).take limit :: pieces limit n ((s.drop i).drop limit) := by
        cases hs : s.drop i with
        | nil =>
          rw [hs] at hpos
          exact absurd hpos (Nat.lt_irrefl 0)
        | cons b t => rfl
      have htake : (s.take (min (i + limit) s.length)).drop i = (s.drop i).take limit := by
        rw [List.drop_take, List.take_eq_take_iff, List.length_drop]
        omega
      rw [hpieces, List.flatMap_cons, ih (by omega), List.drop_drop, htake]
      rfl
    · rename_i hge
      rw [List.drop_of_length_le (by omega)]
      rfl

theorem fold_eq {s : List UInt8} (h : 75 < s.length) :
    Service.Ics.fold s = utf8.fold.intercalate (pieces 75 s.length s) := by
  have hdrop : 0 < (s.drop 75).length := by
    rw [List.length_drop]
    omega
  rw [Service.Ics.fold, if_neg (by omega), pieces_of_pos (by omega) (Nat.le_refl _), intercalate_cons]
  obtain ⟨n, hn⟩ : ∃ k, s.length = k + 1 := ⟨s.length - 1, by omega⟩
  have hmin : min (0 + 75) s.length = 75 := by omega
  have hstart : Service.Ics.foldFrom 75 s s.length 0 = s.take 75 ++ Service.Ics.foldFrom 75 s (s.length - 1) 75 := by
    rw [hn, Service.Ics.foldFrom, if_pos (by omega), if_neg (by omega), hmin]
    rfl
  rw [hstart, foldFrom_eq (by decide) (by decide)]

/-! ### Each encoder -/

theorem wellFolded_units_iff {line : Text} (h : Text.cr ∉ line) :
    utf16.WellFolded 75 line (Model.Ics.fold line) ↔ FitsUnits line := by
  unfold Model.Ics.fold FitsUnits
  split
  · rename_i hle
    have hself : utf16.WellFolded 75 line line ↔ utf8Length line ≤ 75 := wellFolded_self_iff h
    rw [hself]
    exact ⟨fun hshort => .inl ⟨hle, hshort⟩, fun hfits => hfits.elim And.right fun hlong => absurd hlong.1 (by omega)⟩
  · rename_i hlong
    have hlong : 75 < line.length := Nat.lt_of_not_le hlong
    have htake : (line.take 75).length = 75 := by
      rw [List.length_take]
      omega
    have hascii : utf8Length (line.take 75) ≤ 75 ↔ ∀ a ∈ line.take 75, a < 0x80 := by
      rw [← utf8Length_le_iff, htake]
    have hpieces : utf16.WellFolded 75 line (utf16.fold.intercalate (pieces 75 line.length line)) ↔
        utf8Length (line.take 75) ≤ 75 ∧ utf8Length (line.drop 75) < 75 ∧ ¬ utf16.Straddles line 75 :=
      wellFolded_pieces_iff h (by decide) hlong (Nat.le_refl _)
    rw [slices_eq]
    refine hpieces.trans ?_
    rw [hascii]
    constructor
    · rintro ⟨hfirst, hsecond, -⟩
      exact .inr ⟨hlong, hfirst, hsecond⟩
    · rintro (⟨hle, -⟩ | ⟨-, hfirst, hsecond⟩)
      · omega
      · exact ⟨hfirst, hsecond, not_straddles_utf16 hfirst⟩

theorem wellFolded_bytes_iff {s : List UInt8} (h : 13 ∉ s) :
    utf8.WellFolded 75 s (Service.Ics.fold s) ↔ FitsBytes s := by
  by_cases hle : s.length ≤ 75
  · have hself : utf8.WellFolded 75 s s ↔ s.length ≤ 75 := wellFolded_self_iff h
    rw [Service.Ics.fold, if_pos hle, hself]
    refine ⟨fun _ => ⟨by omega, ?_⟩, fun _ => hle⟩
    rintro ⟨pre, c, post, rfl, -, hgt⟩
    rw [List.length_append, List.length_append] at hle
    omega
  · have hlong : 75 < s.length := Nat.lt_of_not_le hle
    have hpieces : utf8.WellFolded 75 s (utf8.fold.intercalate (pieces 75 s.length s)) ↔
        (s.take 75).length ≤ 75 ∧ (s.drop 75).length < 75 ∧ ¬ utf8.Straddles s 75 :=
      wellFolded_pieces_iff h (by decide) hlong (Nat.le_refl _)
    rw [fold_eq hlong, hpieces, List.length_take, List.length_drop, FitsBytes]
    constructor
    · rintro ⟨-, hsecond, hwhole⟩
      exact ⟨by omega, hwhole⟩
    · rintro ⟨hshort, hwhole⟩
      exact ⟨by omega, by omega, hwhole⟩

/-- **Both encoders.** The lines without a carriage return that are folded well. -/
theorem wellFolded_iff {line : Text} {s : List UInt8} (hline : Text.cr ∉ line) (hs : 13 ∉ s) :
    (utf16.WellFolded 75 line (Model.Ics.fold line) ↔ FitsUnits line) ∧
      (utf8.WellFolded 75 s (Service.Ics.fold s) ↔ FitsBytes s) :=
  ⟨wellFolded_units_iff hline, wellFolded_bytes_iff hs⟩

theorem not_straddles_utf8 {s : List UInt8} {p : ℕ} (h : ∀ b ∈ s, b.toNat < 128) : ¬ utf8.Straddles s p := by
  rintro ⟨pre, c, post, rfl, hlt, hgt⟩
  by_cases hc : c.toNat < 128
  · have hone : (utf8.encode c).length = 1 := congrArg List.length (Utf8.utf8EncodeChar_of_lt hc)
    rw [hone] at hgt
    omega
  · obtain ⟨b, hb, hge⟩ := Utf8.exists_byte_ge hc
    exact absurd (h b (List.mem_append_left _ (List.mem_append_right _ hb))) (by omega)

/-- A line of a hundred letters is cut once, and a line of a hundred and forty-nine bytes fills its second piece. -/
theorem wellFolded_long :
    utf16.WellFolded 75 (List.replicate 100 65) (Model.Ics.fold (List.replicate 100 65)) ∧
      utf8.WellFolded 75 (List.replicate 149 65) (Service.Ics.fold (List.replicate 149 65)) := by
  have hiff := @wellFolded_iff (List.replicate 100 65) (List.replicate 149 65) (by decide) (by decide)
  refine ⟨hiff.1.2 (.inr ⟨by decide, fun a ha => ?_, by decide +kernel⟩),
    hiff.2.2 ⟨by simp, not_straddles_utf8 fun b hb => ?_⟩⟩
  · rw [List.eq_of_mem_replicate (List.mem_of_mem_take ha)]
    decide
  · rw [List.eq_of_mem_replicate hb]
    decide

/-- A line of 150 letters becomes a line of 75 and one of 76 octets. -/
theorem second_line_too_long :
    (¬ ∀ line : Text, Text.cr ∉ line → Text.lf ∉ line → utf16.WellFolded 75 line (Model.Ics.fold line)) ∧
      ¬ ∀ s : List UInt8, 13 ∉ s → 10 ∉ s → utf8.WellFolded 75 s (Service.Ics.fold s) := by
  constructor
  · intro hall
    have hshort := (hall (List.replicate 150 65) (by decide) (by decide)).short
    revert hshort
    decide +kernel
  · intro hall
    have hshort := (hall (List.replicate 150 65) (by decide) (by decide)).short
    revert hshort
    decide +kernel

end BookingSystem.Contracts.FoldedLines
