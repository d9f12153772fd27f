import SheetLint.Color.Finite
import SheetLint.Color.Named
import SheetLint.Color.Token

/-!
Reading colors in hexadecimal notation and as `rgb` and `hsl` functions. A function has its old form,
with commas, or its new form, with blanks and a slash before the alpha value; relative to another color
only `rgb` is read. All arithmetic is in single precision.
-/
namespace SheetLint
namespace Color

inductive Component where
  | number (value : Float32)
  | percentage (unit : Float32)
  | missing
  deriving Repr

def isName (expected : String) (name : List Char) : Bool :=
  Text.sameIgnoringCase name expected.toList

def component? : ColorToken → Option Component
  | .number value => some (.number value)
  | .percentage unit => some (.percentage unit)
  | .name name => if isName "none" name then some .missing else none
  | _ => none

def clamp (low high x : Float32) : Float32 := if x < low then low else if high < x then high else x

def orZero (x : Float32) : Float32 := if x.isNaN then 0 else x

def byteOf (x : Float32) : UInt8 := (clamp 0 255 x.round).toUInt8

def byteOfUnit (unit : Float32) : UInt8 := byteOf (unit * 255)

def Component.channel : Component → UInt8
  | .number value => byteOf value
  | .percentage unit => byteOfUnit unit
  | .missing => 0

def alpha? (isSeparator : ColorToken → Bool) (tokens : List ColorToken) : Option UInt8 :=
  match tokens with
  | [] => some 255
  | [separator, token] =>
    if isSeparator separator then
      match component? token with
      | some (.number value) => some (byteOfUnit (clamp 0 1 value))
      | some (.percentage unit) => some (byteOfUnit (clamp 0 1 unit))
      | some .missing => some 0
      | none => none
    else none
  | _ => none

def isComma : ColorToken → Bool
  | .comma => true
  | _ => false

def isSlash : ColorToken → Bool
  | .slash => true
  | _ => false

def oldChannels? : Component → Component → Component → Option (UInt8 × UInt8 × UInt8)
  | .number r, .number g, .number b =>
    if r.isNaN then none else some (byteOf r, byteOf g, byteOf b)
  | .percentage r, .percentage g, .percentage b =>
    if r.isNaN then none else some (byteOfUnit r, byteOfUnit g, byteOfUnit b)
  | _, _, _ => none

def newRgb? (tokens : List ColorToken) : Option Rgba :=
  match tokens with
  | r :: g :: b :: rest => do
    return ⟨(← component? r).channel, (← component? g).channel, (← component? b).channel,
      ← alpha? isSlash rest⟩
  | _ => none

def fromOrigin (origin : Rgba) (token : ColorToken) : ColorToken :=
  match token with
  | .name name =>
    if isName "r" name then .number origin.red.toFloat32
    else if isName "g" name then .number origin.green.toFloat32
    else if isName "b" name then .number origin.blue.toFloat32
    else if isName "alpha" name then .number (origin.alpha.toFloat32 / 255)
    else token
  | _ => token

def origin? : ColorToken → Option Rgba
  | .hash digits => Rgba.ofHex? digits
  | .name name => Rgba.ofName? name
  | _ => none

def rgb? (tokens : List ColorToken) : Option Rgba :=
  match tokens with
  | r :: .comma :: g :: .comma :: b :: rest => do
    let (red, green, blue) ← oldChannels? (← component? r) (← component? g) (← component? b)
    return ⟨red, green, blue, ← alpha? isComma rest⟩
  | .name name :: origin :: rest =>
    if isName "from" name then
      (origin? origin).bind fun color => newRgb? (rest.map (fromOrigin color))
    else newRgb? tokens
  | _ => newRgb? tokens

def hue? : ColorToken → Option (Option Float32)
  | .number value => some (some value)
  | .dimension value unit =>
    if isName "deg" unit then some (some value)
    else if isName "grad" unit then some (some (value * 180 / 200))
    else if isName "rad" unit then some (some (value * 57.29577951308232))
    else if isName "turn" unit then some (some (value * 360))
    else none
  | .name name => if isName "none" name then some none else none
  | _ => none

def Component.percent? : Component → Option Float32
  | .number value => some (clamp 0 100 value)
  | .percentage unit => some (clamp 0 100 (unit * 100))
  | .missing => none

def hueChannel (m1 m2 t : Float32) : Float32 :=
  let t := if t < 0 then t + 3 else if 3 < t then t - 3 else t
  if t * 2 < 1 then m1 + (m2 - m1) * t * 2
  else if t * 2 < 3 then m2
  else if t < 2 then m1 + (m2 - m1) * (2 - t) * 2
  else m1

def ofHsl (hue saturation lightness : Float32) (alpha : UInt8) : Rgba :=
  let h := (hue - 360 * (hue / 360).floor) / 360
  let s := saturation / 100
  let l := lightness / 100
  let m2 := if l ≤ 0.5 then l * (s + 1) else l + s - l * s
  let m1 := l * 2 - m2
  let turn := h * 3
  ⟨byteOfUnit (hueChannel m1 m2 (turn + 1)), byteOfUnit (hueChannel m1 m2 turn),
    byteOfUnit (hueChannel m1 m2 (turn - 1)), alpha⟩

def hsl? (tokens : List ColorToken) : Option Rgba :=
  match tokens with
  | h :: .comma :: s :: .comma :: l :: rest => do
    let hue ← ← hue? h
    if hue.isNaN then none
    else
      return ofHsl hue (← (← component? s).percent?) (← (← component? l).percent?)
        (← alpha? isComma rest)
  | h :: s :: l :: rest => do
    let hue := (← hue? h).getD 0
    let saturation := ((← component? s).percent?).getD 0
    let lightness := ((← component? l).percent?).getD 0
    return ofHsl (orZero hue) (orZero saturation) (orZero lightness) (← alpha? isSlash rest)
  | _ => none

def function? (cs : List Char) : Option Rgba := do
  let (name, inside) ← Text.splitFirst? '(' cs
  let args := inside.dropLast
  let rgb := isName "rgb" name || isName "rgba" name
  let hsl := isName "hsl" name || isName "hsla" name
  if inside.getLast? == some ')' && (rgb || hsl) && !args.contains '(' && !args.contains ')' &&
      hasFiniteNumbers args then
    let tokens ← ColorToken.ofText? args
    if rgb then rgb? tokens else hsl? tokens
  else none

end Color

/-- The color that a text denotes, blanks around it apart. Names are none. -/
def Rgba.parse? (text : String) : Option Rgba :=
  match Text.trim text.toList with
  | '#' :: digits => Rgba.ofHex? digits
  | cs => Color.function? cs

end SheetLint
