import Chip8.Console.Input
import Chip8.Main
import Chip8.Proofs.Run
import Chip8.Proofs.Effect
import Chip8.Proofs.Step
import Chip8.Proofs.Table
import Chip8.Proofs.Refusal
import Chip8.Proofs.Soundness
import Chip8.Proofs.History
import Chip8.Proofs.Bracket
import Chip8.Proofs.Procedure
import Chip8.Proofs.Procedure.Pieces
import Chip8.Proofs.Procedure.Drawing
import Chip8.Proofs.Procedure.Agreement
import Chip8.Proofs.Atomicity
import Chip8.Proofs.Outcome
import Chip8.Proofs.Texture
import Chip8.Proofs.Player.Stages
import Chip8.Proofs.Player.Picture
import Chip8.Proofs.Player.Keys
import Chip8.Proofs.Veil
import Chip8.Proofs.Player.Timing
import Chip8.Proofs.Player.Clock
import Chip8.Proofs.Replay
import Chip8.Proofs.Player.Clockwork
import Chip8.Proofs.Player.Ticks
import Chip8.Proofs.Player.Pauses
import Chip8.Proofs.Procedure.Word
import Chip8.Proofs.Waiting
import Chip8.Proofs.Safety
import Chip8.Proofs.Similarity
import Chip8.Proofs.Signals
import Chip8.Proofs.Interleaving
import Chip8.Proofs.Sprite
import Chip8.Proofs.Redrawing
import Chip8.Proofs.Confinement
import Chip8.Proofs.Delivery
import Chip8.Proofs.Flags
import Chip8.Proofs.Numeral
import Chip8.Proofs.CommandLine
import Chip8.Proofs.Transfer
import Chip8.Proofs.Arcade
import Chip8.Proofs.Halting
import Chip8.Proofs.Records
import Chip8.Proofs.Player.Buzzer
import Chip8.Proofs.Span
import Chip8.Proofs.Pixels
