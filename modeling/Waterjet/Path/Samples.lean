import Waterjet.Host
import Waterjet.Number.Notation

/-!
How many points an arc is sampled at. Two are needed for its ends, and there must be room for the
arrays of all points.
-/
namespace Waterjet

open Number

inductive ReplayFault where
  | tooFewSamples
  | noArray (f : ArrayFault)
  | noCircle (sequence : Int)
  deriving DecidableEq

/-- A number of points per arc, enough for both ends. -/
@[ext]
structure SampleCount where
  val : Nat
  two_le : 2 ≤ val

def SampleCount.ofInt? (n : Int) : Except ReplayFault SampleCount :=
  if h : 2 ≤ n then .ok ⟨n.toNat, by omega⟩ else .error .tooFewSamples

theorem SampleCount.ofInt?_eq_ok_iff {n : Int} {count : SampleCount} :
    ofInt? n = .ok count ↔ (count.val : Int) = n := by
  have htwo := count.two_le
  unfold ofInt?
  constructor
  · intro h
    split at h
    · cases h
      exact Int.toNat_of_nonneg (by omega)
    · cases h
  · rintro rfl
    rw [dif_pos (by omega)]
    rfl

/-- The number of samples asked for, once there is room for arrays of some lengths. -/
def sampleCount? [Host] (samples : Int) (lengths : SampleCount → List Nat) :
    Except ReplayFault SampleCount := do
  let count ← SampleCount.ofInt? samples
  (Host.allocate? (lengths count)).mapError .noArray
  pure count

theorem sampleCount?_eq_ok_iff [Host] {samples : Int} {lengths : SampleCount → List Nat}
    {count : SampleCount} :
    sampleCount? samples lengths = .ok count ↔
      (count.val : Int) = samples ∧ Host.allocate? (lengths count) = .ok () := by
  unfold sampleCount?
  rw [← SampleCount.ofInt?_eq_ok_iff]
  cases SampleCount.ofInt? samples with
  | error f => simp [bind, Except.bind]
  | ok asked =>
    change ((Host.allocate? (lengths asked)).mapError ReplayFault.noArray >>= fun _ => .ok asked) =
      _ ↔ _
    constructor
    · intro h
      cases hroom : Host.allocate? (lengths asked) with
      | error f =>
        rw [hroom] at h
        cases h
      | ok u =>
        rw [hroom] at h
        cases h
        exact ⟨rfl, hroom⟩
    · rintro ⟨⟨⟩, hroom⟩
      rw [hroom]
      rfl

def ReplayFault.message : ReplayFault → String
  | .tooFewSamples => "num_samples must be at least 2"
  | .noArray f => f.text
  | .noCircle sequence => s!"Arc move {written sequence} has no resolved geometry"

end Waterjet
