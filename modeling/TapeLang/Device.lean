import TapeLang.Text

namespace TapeLang

/-- The answer to a request for a byte, with the device after it. -/
inductive Reply (δ : Type) where
  | byte (b : UInt8) (device : δ)
  /-- There is no byte and the cell keeps its value. -/
  | keep (device : δ)
  /-- The stream broke down in the middle of the request. -/
  | crash (reason : Text) (device : δ)

/-- What a running program sends bytes to and asks for bytes. Only asking can break down: sending
always gives a device again. -/
class Device (δ : Type) where
  put : UInt8 → δ → δ
  get : δ → Reply δ

end TapeLang
