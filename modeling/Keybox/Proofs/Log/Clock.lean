import Keybox.Log.Clock
import Keybox.Proofs.Numeral
import Keybox.Proofs.Text.Occurrence

/-!
# Lengths of time stamps

A time stamp stands at the front of each line of a log. Its numbers are short, so it has no room for
the text of a private key.
-/

namespace Keybox

namespace Clock

theorem length_padded_le
    {width n k : Nat}
    (hk : 0 < k)
    (hwidth : width ≤ k)
    (hn : n < 10 ^ k) :
    (padded width n).length ≤ k := by
  have hdigits := Text.length_ofNat_le hk hn
  rw [padded, List.length_append, List.length_replicate]
  omega

/-- Rough bounds of year, month and day, enough for their numbers of digits. -/
theorem date_bounds
    (days : Nat) :
    (date days).1 ≤ days + 720000 ∧ (date days).2.1 < 10 ^ 4 ∧ (date days).2.2 < 10 ^ 6 := by
  simp only [date]
  have hera : (days + 719468) % 146097 < 146097 := Nat.mod_lt _ (by decide)
  generalize (days + 719468) % 146097 = dayOfEra at hera
  have hyear :
      (dayOfEra - dayOfEra / 1460 + dayOfEra / 36524 - dayOfEra / 146096) / 365 ≤ 401 := by
    omega
  generalize (dayOfEra - dayOfEra / 1460 + dayOfEra / 36524 - dayOfEra / 146096) / 365 =
    yearOfEra at hyear
  have hday : dayOfEra - (365 * yearOfEra + yearOfEra / 4 - yearOfEra / 100) ≤ dayOfEra :=
    Nat.sub_le _ _
  generalize dayOfEra - (365 * yearOfEra + yearOfEra / 4 - yearOfEra / 100) = dayOfYear at hday
  refine ⟨?_, ?_, ?_⟩
  · split <;> split <;> omega
  · split <;> omega
  · omega

/-- The stamp of a time that any calendar reaches is shorter than the text of a private key. -/
theorem length_stamp_lt
    {milliseconds : Nat}
    (h : milliseconds < 10 ^ 30) :
    (stamp milliseconds).length < 64 := by
  have hbounds := date_bounds (milliseconds / 1000 / 86400)
  rcases hdate : date (milliseconds / 1000 / 86400) with ⟨year, month, day⟩
  rw [hdate] at hbounds
  obtain ⟨hyear, hmonth, hday⟩ := hbounds
  dsimp only at hyear
  have hyears : (padded 4 year).length ≤ 30 :=
    length_padded_le (by decide) (by decide) (by omega)
  have hmonths : (padded 2 month).length ≤ 4 :=
    length_padded_le (by decide) (by decide) hmonth
  have hdays : (padded 2 day).length ≤ 6 :=
    length_padded_le (by decide) (by decide) hday
  have hhours : (padded 2 (milliseconds / 1000 / 3600 % 24)).length ≤ 2 :=
    length_padded_le (by decide) (by decide) (by omega)
  have hminutes : (padded 2 (milliseconds / 1000 / 60 % 60)).length ≤ 2 :=
    length_padded_le (by decide) (by decide) (by omega)
  have hseconds : (padded 2 (milliseconds / 1000 % 60)).length ≤ 2 :=
    length_padded_le (by decide) (by decide) (by omega)
  have hthousandths : (padded 3 (milliseconds % 1000)).length ≤ 3 :=
    length_padded_le (by decide) (by decide) (by omega)
  have hmarks : (lit "-").length = 1 ∧ (lit " ").length = 1 ∧ (lit ":").length = 1 ∧
      (lit ",").length = 1 := by
    decide
  simp only [stamp, hdate, List.length_append]
  omega

/-- No time stamp shows a payload. -/
theorem lacks_stamp
    {secret : Text}
    (hs : Base58.IsPayload secret)
    {milliseconds : Nat}
    (h : milliseconds < 10 ^ 30) :
    (stamp milliseconds).Lacks secret :=
  hs.lacks_of_length (length_stamp_lt h)

end Clock

end Keybox
