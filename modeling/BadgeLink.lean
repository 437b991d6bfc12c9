import BadgeLink.Bench.Chip
import BadgeLink.Bench.Firmware
import BadgeLink.Bench.Host
import BadgeLink.Session
import BadgeLink.Main
import BadgeLink.Proofs.Flash.Spelling
import BadgeLink.Proofs.Console.Port
import BadgeLink.Proofs.Programmer.Wire
import BadgeLink.Proofs.Flash.Determined
import BadgeLink.Proofs.Programmer.Verification
import BadgeLink.Proofs.Programmer.Opening
import BadgeLink.Proofs.Console.Order
import BadgeLink.Proofs.Bench.Run
import BadgeLink.Proofs.Text.Hex
import BadgeLink.Proofs.Bench.Monitor
import BadgeLink.Proofs.Bench.Controller
import BadgeLink.Proofs.Bench.Memory
import BadgeLink.Proofs.Bench.Bytes
import BadgeLink.Proofs.Bench.Writing
import BadgeLink.Proofs.Bench.Reading
import BadgeLink.Proofs.Bench.Installation
import BadgeLink.Proofs.Bench.Connection
import BadgeLink.Proofs.Bench.Programming
import BadgeLink.Proofs.Bench.Conversation
import BadgeLink.Proofs.Bench.Store
import BadgeLink.Proofs.Bench.Refinement
import BadgeLink.Proofs.Bench.Silence
import BadgeLink.Proofs.Bench.Polling
import BadgeLink.Proofs.Bench.Deadline
import BadgeLink.Proofs.Bench.Splitting
import BadgeLink.Proofs.Bench.Sending
import BadgeLink.Proofs.Badge.Reset
import BadgeLink.Proofs.Link.Steady
import BadgeLink.Proofs.Flash.Arithmetic
import BadgeLink.Proofs.Monitor.Willing
import BadgeLink.Proofs.Flash.Willing
import BadgeLink.Proofs.Programmer.Overflow
import BadgeLink.Proofs.Programmer.Addressing
import BadgeLink.Proofs.Bench.Firmware
import BadgeLink.Proofs.Badge.Response
import BadgeLink.Proofs.Badge.Session
import BadgeLink.Proofs.Badge.Stale
import BadgeLink.Proofs.Monitor.Text
import BadgeLink.Proofs.Programmer.Containment
import BadgeLink.Proofs.Badge.Encoding
import BadgeLink.Proofs.Bench.Stream
import BadgeLink.Proofs.Bench.Transcript
import BadgeLink.Proofs.Bench.Registers
import BadgeLink.Proofs.Console.Badge
import BadgeLink.Proofs.Monitor.Driven
import BadgeLink.Proofs.Flash.Polling
import BadgeLink.Proofs.Flash.Errors
import BadgeLink.Proofs.Flash.Parsing
import BadgeLink.Proofs.Badge.Corruption
import BadgeLink.Proofs.Badge.Domain
import BadgeLink.Proofs.Link.Conversation
import BadgeLink.Proofs.Badge.Attempts
import BadgeLink.Proofs.Badge.Handshake
import BadgeLink.Proofs.Badge.Flush
import BadgeLink.Proofs.Programmer.Progress
import BadgeLink.Proofs.Monitor.Block
import BadgeLink.Proofs.Bench.Draining
import BadgeLink.Proofs.Badge.Register
