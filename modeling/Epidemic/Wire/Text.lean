import Epidemic.Text.Utf8
import Epidemic.Wire.Format

namespace Epidemic.Wire.Format

def text : Format String where
  write s := bytes.write (Text.utf8 s)
  read bs := do
    let (body, bs) ← bytes.read bs
    match Text.ofUtf8? body with
    | some s => .ok (s, bs)
    | none => .error .badText

end Epidemic.Wire.Format
