import FileChores.CommandLine
import FileChores.FileSystem.Scripted
import FileChores.Main
import FileChores.Proofs.CommandLine.Echo
import FileChores.Proofs.Grammar.ViablePrefix
import FileChores.Proofs.Lexing.Tiling
import FileChores.Proofs.Printing.RoundTrip
import FileChores.Proofs.Run.Account
import FileChores.Proofs.Run.Blame
import FileChores.Proofs.Run.Budget
import FileChores.Proofs.Run.Chain
import FileChores.Proofs.Run.Declaring
import FileChores.Proofs.Run.Failing
import FileChores.Proofs.Run.History
import FileChores.Proofs.Run.Turns
import FileChores.Proofs.Volume.Refusing
import FileChores.Text.Utf8
import FileChores.Volume.FileSystem
import FileChores.Proofs.Volume.Within
import FileChores.Proofs.Volume.Slots
import FileChores.Proofs.Volume.Measuring
import FileChores.Proofs.Volume.Grafting
import FileChores.Proofs.Volume.Relocating
import FileChores.Proofs.Volume.Returning
import FileChores.Proofs.Grammar.Moving
import FileChores.Proofs.Lexing.Moving
import FileChores.Proofs.Run.Moving
import FileChores.Proofs.CommandLine.Trimming
import FileChores.Proofs.Lexing.Spacing
import FileChores.Proofs.Run.Unfolding
import FileChores.Proofs.Run.Firing
import FileChores.Proofs.Volume.Spelling
import FileChores.Proofs.Run.Framing
import FileChores.Proofs.Run.Counting
import FileChores.Proofs.Grammar.Rereading
import FileChores.Proofs.Comparison
import FileChores.Proofs.Run.Renaming
import FileChores.Proofs.Volume.Emptying
import FileChores.Proofs.Volume.Blaming
import FileChores.Proofs.Volume.Listing
import FileChores.Proofs.CommandLine.Arguments
import FileChores.Proofs.Environment.History
import FileChores.Proofs.Disk.Failing
import FileChores.Proofs.Disk.Moving
import FileChores.Proofs.Disk.Plain
