import StackSynth.Device.Machine
import StackSynth.Language.Numeral
import StackSynth.Number.Power
import StackSynth.Text.Lowercase

/-!
# Choosing an output device

A device is chosen by its place in the listing, by its name, or by a part of its name in which upper
and lower case do not matter. What reads as a place is never a name. A name that fits exactly comes
before all parts; of several devices that fit equally well the first is taken, and for parts that is
worth a warning.
-/

namespace StackSynth

/-- Why no device is chosen. -/
inductive ChoiceError where
  /-- There are only `count` devices. -/
  | noPlace (place count : Nat)
  | noName (search : String)
  deriving DecidableEq, Repr

/-- The text of an error. -/
def ChoiceError.message : ChoiceError → String
  | .noPlace place count => s!"output device index {place} (only {count} devices available)"
  | .noName search => s!"no output device matching '{search}'"

/-- A device that was chosen. -/
structure Choice where
  device : Device
  /-- The names that fit, if the choice was between several. -/
  candidates : List String := []

namespace AudioMachine

/-- Whether one text occurs in another. -/
def occursIn (part : List Char) : List Char → Bool
  | [] => part.isEmpty
  | c :: cs => part.isPrefixOf (c :: cs) || occursIn part cs

/-- The place that a text writes. -/
def place? (search : String) : Option Nat :=
  (Numeral.readNatural? search).filter fun n => n < twoTo 64

/-- Whether a text fits a device in part. -/
def fits (search : String) (d : Device) : Bool :=
  d.name.any fun name => occursIn (Lowercase.lower search).toList (Lowercase.lower name).toList

/-- Chooses a device that plays sound. -/
def choose (m : AudioMachine) (search : String) : Except ChoiceError Choice :=
  let devices := m.outputs
  match place? search with
  | some place =>
    match devices[place]? with
    | some d => .ok { device := d }
    | none => .error (.noPlace place devices.length)
  | none =>
    match devices.find? fun d => d.name = some search with
    | some d => .ok { device := d }
    | none =>
      match devices.filter (fits search) with
      | [] => .error (.noName search)
      | [d] => .ok { device := d }
      | d :: others => .ok ⟨d, (d :: others).filterMap Device.name⟩

end AudioMachine

end StackSynth
