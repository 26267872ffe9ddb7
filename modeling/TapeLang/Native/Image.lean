import TapeLang.Native.Generate

namespace TapeLang.Native

/-- This host can execute machine code. -/
def supported : Bool := false

/-- What running reports on a host that cannot execute the code. -/
def unsupported : Failure := .environment (text "run") (some .unsupportedPlatform)

/-- A compiled image runs once and is then used up. This host cannot execute the code, so no memory
is mapped and running reports that. -/
structure Image where
  code : Code
  consumed : Bool := false

namespace Image

def compile (b : Block) (boundsCheck : Bool) : Except Defect Image :=
  (generate b { boundsCheck }).map fun code => { code }

def run (i : Image) : Failure × Image :=
  if i.consumed then (.plain (text "jit: program already consumed"), i)
  else (unsupported, { i with consumed := true })

/-- Gives the image up without running it. -/
def close (i : Image) : Image := { i with consumed := true }

end Image

end TapeLang.Native
