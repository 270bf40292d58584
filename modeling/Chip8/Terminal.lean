import Chip8.Player
import Chip8.Screen

/-!
A player in a terminal. A picture is drawn with one character for two cells, the upper and the
lower. A line of text holds its characters' keys down until the next line.
-/

namespace Chip8.Terminal

def block (upper lower : Bool) : Char :=
  match upper, lower with
  | true, true => '█'
  | true, false => '▀'
  | false, true => '▄'
  | false, false => ' '

/-- Whether a cell is lit, which its red tells. -/
def lit (picture : Picture) (x y : Nat) : Bool :=
  picture.get ⟨3 * (Screen.cellAt x y).val, by omega⟩ ≠ 0

def line (picture : Picture) (pair : Nat) : String :=
  String.ofList ((List.range Screen.width).map fun x =>
    block (lit picture x (2 * pair)) (lit picture x (2 * pair + 1)))

def paint (picture : Picture) : String :=
  "\x1b[H" ++ "\n".intercalate ((List.range (Screen.height / 2)).map (line picture)) ++ "\n"

/-- The keys that a line of text holds down. -/
def held (text : String) : List Keycode :=
  (text.toList.filter (· ≠ '\n')).map fun c => (c.toNat : Int)

/-- Keys no longer held come up, then keys newly held go down. -/
def changes (before now : List Keycode) : List Event :=
  (before.filter (!now.contains ·)).map (.key · false) ++
    (now.filter (!before.contains ·)).map (.key · true)

end Chip8.Terminal
