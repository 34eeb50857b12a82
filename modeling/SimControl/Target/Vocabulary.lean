/-
The words that describe a target: its state, kind, system and model.

Each type lists its words in the order in which help and error messages give them.
-/
import SimControl.EnumSet

namespace SimControl

/-! ## States -/

inductive SimulatorState where
  | creating | shutdown | booting | booted | shuttingDown
  deriving DecidableEq, Repr

namespace SimulatorState

instance : Enumerated SimulatorState where
  all := [creating, shutdown, booting, booted, shuttingDown]
  mem_all a := by cases a <;> decide

def name : SimulatorState → String
  | creating => "creating"
  | shutdown => "shutdown"
  | booting => "booting"
  | booted => "booted"
  | shuttingDown => "shutting-down"

end SimulatorState

/-! ## Kinds -/

inductive TargetType where
  | simulator | device
  deriving DecidableEq, Repr

namespace TargetType

instance : Enumerated TargetType where
  all := [simulator, device]
  mem_all a := by cases a <;> decide

def flag : TargetType → String
  | simulator => "--simulators"
  | device => "--devices"

def label : TargetType → String
  | simulator => "SIMULATOR"
  | device => "DEVICE"

end TargetType

/-! ## Systems -/

/-- The versions of the operating systems that can be asked for. -/
inductive OsVersion where
  | iOS81 | iOS82 | iOS83 | iOS84 | iOS90 | iOS91 | iOS92 | iOS93 | iOS100
  | tvOS90 | tvOS91 | tvOS92
  | watchOS20 | watchOS21 | watchOS22
  deriving DecidableEq, Repr

namespace OsVersion

instance : Enumerated OsVersion where
  all := [iOS81, iOS82, iOS83, iOS84, iOS90, iOS91, iOS92, iOS93, iOS100,
    tvOS90, tvOS91, tvOS92, watchOS20, watchOS21, watchOS22]
  mem_all a := by cases a <;> decide

def name : OsVersion → String
  | iOS81 => "iOS 8.1"
  | iOS82 => "iOS 8.2"
  | iOS83 => "iOS 8.3"
  | iOS84 => "iOS 8.4"
  | iOS90 => "iOS 9.0"
  | iOS91 => "iOS 9.1"
  | iOS92 => "iOS 9.2"
  | iOS93 => "iOS 9.3"
  | iOS100 => "iOS 10.0"
  | tvOS90 => "tvOS 9.0"
  | tvOS91 => "tvOS 9.1"
  | tvOS92 => "tvOS 9.2"
  | watchOS20 => "watchOS 2.0"
  | watchOS21 => "watchOS 2.1"
  | watchOS22 => "watchOS 2.2"

end OsVersion

/-! ## Models -/

/-- The device models that can be asked for. -/
inductive DeviceModel where
  | iPhone4s | iPhone5 | iPhone5s | iPhone6 | iPhone6Plus | iPhone6s | iPhone6sPlus | iPhoneSE
  | iPad2 | iPadRetina | iPadAir | iPadAir2 | iPadPro
  | appleTV | appleWatch38 | appleWatch42
  deriving DecidableEq, Repr

namespace DeviceModel

instance : Enumerated DeviceModel where
  all := [iPhone4s, iPhone5, iPhone5s, iPhone6, iPhone6Plus, iPhone6s, iPhone6sPlus, iPhoneSE,
    iPad2, iPadRetina, iPadAir, iPadAir2, iPadPro, appleTV, appleWatch38, appleWatch42]
  mem_all a := by cases a <;> decide

def name : DeviceModel → String
  | iPhone4s => "iPhone 4s"
  | iPhone5 => "iPhone 5"
  | iPhone5s => "iPhone 5s"
  | iPhone6 => "iPhone 6"
  | iPhone6Plus => "iPhone 6 Plus"
  | iPhone6s => "iPhone 6s"
  | iPhone6sPlus => "iPhone 6s Plus"
  | iPhoneSE => "iPhone SE"
  | iPad2 => "iPad 2"
  | iPadRetina => "iPad Retina"
  | iPadAir => "iPad Air"
  | iPadAir2 => "iPad Air 2"
  | iPadPro => "iPad Pro"
  | appleTV => "Apple TV 1080p"
  | appleWatch38 => "Apple Watch - 38mm"
  | appleWatch42 => "Apple Watch - 42mm"

end DeviceModel

/-- The names of a set's members, in alphabetical order. -/
def EnumSet.sortedNames {α : Type} [Enumerated α] (name : α → String) (s : EnumSet α) :
    List String :=
  (s.toList.map name).mergeSort fun a b => decide (a ≤ b)

end SimControl
