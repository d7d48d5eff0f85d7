import Pixel845.Lib.Decimal
import Mathlib.Logic.Function.Basic

/-!
# The lights service

`Light.cpp`: the service keeps the latest state of the three lights that share the white LED, and every request for one of them
programs the LED anew, through the nodes of its driver. A node holds the text that was written to it last. Failures to open a node
are left out.
-/

namespace Pixel845.Light

/-! ## Requests -/

/-- The types of lights. -/
inductive LightType where
  | backlight
  | keyboard
  | buttons
  | battery
  | notifications
  | attention
  | bluetooth
  | wifi
deriving DecidableEq

/-- The ways a light flashes. -/
inductive Flash where
  | none
  | timed
  | hardware
deriving DecidableEq

/-- `LightState`, less the mode of the brightness, which nothing reads. -/
structure LightState where
  color : UInt32
  flashMode : Flash
  flashOnMs : Int32
  flashOffMs : Int32
deriving DecidableEq

/-- What `setLight` returns. -/
inductive Status where
  | success
  | lightNotSupported
deriving DecidableEq

/-! ## Nodes -/

/-- The nodes that the service writes. -/
inductive Node where
  | backlightBrightness
  | blink
  | startIdx
  | dutyPcts
  | pauseLo
  | pauseHi
  | rampStepMs
  | brightness
deriving DecidableEq

/-- The service and the nodes: `maxBrightness` is the number that is read from the node of that name, if one can be read. -/
structure Service where
  mLightStates : Fin 3 → LightState
  node : Node → List UInt8
  maxBrightness : Option Int32

/-- `set`: write a value to a node. -/
def Service.set (s : Service) (n : Node) (value : List UInt8) : Service := { s with node := Function.update s.node n value }

/-! ## Brightness -/

def kDefaultMaxBrightness : Int32 := 255
def kRampSteps : Int32 := 8
def kRampMaxStepDurationMs : Int32 := 50

/-- The red, the green and the blue part of a color. -/
def rgb (color : UInt32) : UInt32 × UInt32 × UInt32 := ((color >>> 16) &&& 0xff, (color >>> 8) &&& 0xff, color &&& 0xff)

/-- `getBrightness` -/
def getBrightness (state : LightState) : UInt32 :=
  let alpha := (state.color >>> 24) &&& 0xff
  let (red, green, blue) := rgb state.color
  let (red, green, blue) :=
    if alpha ≠ 0xff then (red * alpha / 0xff, green * alpha / 0xff, blue * alpha / 0xff) else (red, green, blue)
  (77 * red + 150 * green + 29 * blue) >>> 8

/-- `rgbToBrightness` -/
def rgbToBrightness (state : LightState) : UInt32 :=
  let color := state.color &&& 0x00ffffff
  let (red, green, blue) := rgb color
  (77 * red + 150 * green + 29 * blue) >>> 8

/-- `getScaledDutyPercent`: nine percentages with commas between them. -/
def getScaledDutyPercent (brightness : Int32) : List UInt8 :=
  List.intercalate [44] ((List.range 9).map fun i =>
    decimalInt (.ofNat i * 100 * brightness / (kDefaultMaxBrightness * kRampSteps)).toInt)

/-! ## Handlers -/

/-- `handleBacklight`. The product is one of unsigned integers. -/
def handleBacklight (s : Service) (state : LightState) : Service :=
  let maxBrightness := s.maxBrightness.getD (-1)
  let maxBrightness := if maxBrightness < 0 then kDefaultMaxBrightness else maxBrightness
  let sentBrightness := rgbToBrightness state
  let brightness := sentBrightness * maxBrightness.toUInt32 / kDefaultMaxBrightness.toUInt32
  s.set .backlightBrightness (decimal brightness.toNat)

/-- `lightState.color & 0xffffff` is not zero. -/
def LightState.lit (state : LightState) : Bool := state.color &&& 0xffffff != 0

/-- The state that `handleWhiteLed` uses: the first one with a color, or else the first one. -/
def stateToUse (states : Fin 3 → LightState) : LightState :=
  (((List.finRange 3).map states).find? (·.lit)).getD (states 0)

/-- The nodes after the LED was programmed for a state. -/
def Service.program (s : Service) (stateToUse : LightState) : Service :=
  let whiteBrightness := getBrightness stateToUse
  let s := s.set .blink (decimal 0)
  if stateToUse.flashMode = .timed then
    let stepDuration := kRampMaxStepDurationMs
    let pauseHi := stateToUse.flashOnMs - stepDuration * kRampSteps * 2
    let pauseLo := stateToUse.flashOffMs
    let (stepDuration, pauseHi) :=
      if pauseHi < 0 then (stateToUse.flashOnMs / (kRampSteps * 2), 0) else (stepDuration, pauseHi)
    let s := s.set .startIdx (decimal 0)
    let s := s.set .dutyPcts (getScaledDutyPercent whiteBrightness.toInt32)
    let s := s.set .pauseLo (decimalInt pauseLo.toInt)
    let s := s.set .pauseHi (decimalInt pauseHi.toInt)
    let s := s.set .rampStepMs (decimalInt stepDuration.toInt)
    s.set .blink (decimal 1)
  else s.set .brightness (decimal whiteBrightness.toNat)

/-- `handleWhiteLed` -/
def handleWhiteLed (s : Service) (state : LightState) (index : Fin 3) : Service :=
  let states := Function.update s.mLightStates index state
  { s with mLightStates := states }.program (stateToUse states)

/-- The place of a light among the stored states, for the handlers of `mLights` that share the white LED. -/
def ledIndex : LightType → Option (Fin 3)
  | .attention => some 0
  | .notifications => some 1
  | .battery => some 2
  | _ => none

/-- `setLight` -/
def setLight (s : Service) (type : LightType) (state : LightState) : Status × Service :=
  match ledIndex type with
  | some index => (.success, handleWhiteLed s state index)
  | none => if type = .backlight then (.success, handleBacklight s state) else (.lightNotSupported, s)

/-- The service after calls of `setLight`, in order. -/
def run (s : Service) (calls : List (LightType × LightState)) : Service := calls.foldl (fun s c => (setLight s c.1 c.2).2) s

end Pixel845.Light
