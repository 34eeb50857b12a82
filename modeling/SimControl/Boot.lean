/-
How a simulator is booted.
-/
import SimControl.Operand.Locale
import SimControl.Parser.Enumerated
import SimControl.Parser.Sequence

namespace SimControl

/-- The size of the simulator's window. -/
inductive Scale where
  | quarter | half | threeQuarters | full
  deriving DecidableEq, Repr

namespace Scale

instance : Enumerated Scale where
  all := [quarter, half, threeQuarters, full]
  mem_all a := by cases a <;> decide

def percent : Scale → Nat
  | quarter => 25
  | half => 50
  | threeQuarters => 75
  | full => 100

def flag (scale : Scale) : String := "--scale=" ++ toString scale.percent

def parser : Parser Scale := .oneSpelled flag

end Scale

inductive BootOption where
  | connectBridge | directLaunch | useNSWorkspace | debugWindow
  deriving DecidableEq, Repr

namespace BootOption

instance : Enumerated BootOption where
  all := [connectBridge, directLaunch, useNSWorkspace, debugWindow]
  mem_all a := by cases a <;> decide

def flag : BootOption → String
  | connectBridge => "--connect-bridge"
  | directLaunch => "--direct-launch"
  | useNSWorkspace => "--use-nsworkspace"
  | debugWindow => "--debug-window"

def label : BootOption → String
  | connectBridge => "CONNECT_BRIDGE"
  | directLaunch => "ENABLE_DIRECT_LAUNCH"
  | useNSWorkspace => "USE_NSWORKSPACE"
  | debugWindow => "SHOW_DEBUG_WINDOW"

def setParser : Parser (EnumSet BootOption) := .flagSet 1 flag

end BootOption

structure BootConfiguration where
  locale : Option Locale
  scale : Option Scale
  options : EnumSet BootOption
  deriving DecidableEq

namespace BootConfiguration

/-- A locale, a scale and flags, in this order, at least one of the three. -/
def parser : Parser BootConfiguration :=
  ((Parser.triple (Parser.keyword "--locale" Locale.parser).optional Scale.parser.optional
    BootOption.setParser.optional).refine fun
      | (none, none, none) => .error (.objection .emptyBoot)
      | (locale, scale, options) => .ok ⟨locale, scale, options.getD ∅⟩).described
    "Boot Configuration"

end BootConfiguration
end SimControl
