/-!
# Audio machines

What a machine offers for playing sound: output devices in an order of its own, and a default device
that stands beside them. Each device supports ranges of channels, rates and period lengths, and may
fail to open. A device that does not tell its name is left out of listings, and can be chosen by its
place only.

A device has a default configuration unless it fails to open or has no usable number of channels. It
prefers two channels over one and one over many, and 44100 frames per second over the highest rate.
Where there is no default configuration, two channels and 48000 frames per second are assumed.
-/

namespace StackSynth

/-- A range of natural numbers with both its ends. -/
structure Span where
  least : Nat
  most : Nat
  deriving DecidableEq, Repr

/-- Whether a number is in a range. -/
def Span.holds (s : Span) (n : Nat) : Bool := s.least ≤ n && n ≤ s.most

/-- Which way sound goes through a device. -/
inductive Direction where
  | output
  | input
  | both
  deriving DecidableEq, Repr

/-- Why a device does not open. -/
inductive Trouble where
  | missing
  | gone
  | busy
  | invalid
  | io
  deriving DecidableEq, Repr

/-- A device. -/
structure Device where
  /-- Its name; nothing if the device does not tell it. -/
  name : Option String := some ""
  channels : Span := ⟨2, 2⟩
  /-- Frames per second. -/
  rate : Span := ⟨48000, 48000⟩
  /-- Frames of a period. -/
  buffer : Span := ⟨16, 8192⟩
  direction : Direction := .output
  /-- Whether it takes 32-bit floating-point samples. -/
  float : Bool := true
  /-- Why it does not open, if it does not. -/
  trouble : Option Trouble := none
  deriving DecidableEq, Repr

/-- Channels and frames per second of a device. -/
structure DeviceFormat where
  channels : Nat
  rate : Nat
  deriving DecidableEq, Repr

namespace Device

/-- The most channels that a default configuration may have. -/
def maxChannels : Nat := 32

/-- The configuration that a device prefers. -/
def defaultFormat? (d : Device) : Option DeviceFormat :=
  let most := min d.channels.most maxChannels
  if d.trouble.isSome || most < max d.channels.least 1 then none
  else
    some {
      channels := if d.channels.holds 2 then 2 else if d.channels.holds 1 then 1 else most
      rate := if d.rate.holds 44100 then 44100 else d.rate.most }

/-- The configuration that is assumed of a device. -/
def format (d : Device) : DeviceFormat := d.defaultFormat?.getD ⟨2, 48000⟩

/-- The name under which a device is shown while it plays. -/
def title (d : Device) : String := d.name.getD "<unnamed>"

end Device

/-- The devices of a machine. -/
structure AudioMachine where
  /-- The devices besides the default one. -/
  devices : List Device := []
  /-- The default device, if it can be opened. -/
  default : Option Device := none

/-- What is shown of a device. -/
structure DeviceInfo where
  name : String
  format : DeviceFormat
  /-- Whether it bears the name of the default device. -/
  isDefault : Bool
  deriving DecidableEq, Repr

namespace AudioMachine

/-- The name of the default device. -/
def defaultName : String := "Default Audio Device"

/-- The device that plays when none is asked for. It is always there to be chosen. -/
def defaultDevice (m : AudioMachine) : Device :=
  { m.default.getD { trouble := some .missing } with name := some defaultName }

/-- The devices that play sound. A device whose name is empty is named after its place. -/
def outputs (m : AudioMachine) : List Device :=
  m.devices.zipIdx.filterMap fun (d, i) =>
    if d.direction = .input then none
    else some { d with name := if d.name = some "" then some s!"dev{i}" else d.name }

/-- What is shown of a device that tells its name. -/
def describe (d : Device) : Option DeviceInfo :=
  d.name.map fun name => ⟨name, d.format, name = defaultName⟩

/-- What is shown of the devices that play sound. -/
def listing (m : AudioMachine) : List DeviceInfo := m.outputs.filterMap describe

end AudioMachine

end StackSynth
