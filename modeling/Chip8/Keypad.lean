import Chip8.Opcode

/-!
The keypad on a keyboard. The sixteen keys lie on the four left columns:

```text
|1|2|3|C|      |1|2|3|4|
|4|5|6|D|  on  |Q|W|E|R|
|7|8|9|E|      |A|S|D|F|
|A|0|B|F|      |Z|X|C|V|
```

A keyboard key is known by the code of the character it writes, letters in lower case. Codes are
signed, and code zero is no key.
-/

namespace Chip8

abbrev Keycode := Int

namespace Keycode

/-- The key that lets cycles run without a pause. -/
def space : Keycode := 32

/-- The key that runs cycles backwards. -/
def escape : Keycode := 27

end Keycode

namespace Keypad

/-- The characters under the keypad keys, from key 0 to key F. -/
def layout : List Char :=
  ['x', '1', '2', '3', 'q', 'w', 'e', 'a', 's', 'd', 'z', 'c', '4', 'r', 'f', 'v']

def key? (code : Keycode) : Option UInt8 :=
  ((layout.map fun c => (c.toNat : Int)).idxOf? code).map UInt8.ofNat

end Keypad

end Chip8
