import Wchratum1.Foundations.RingWindow
import Wchratum1.Foundations.RingWalk
import Wchratum1.Foundations.Runs
import Wchratum1.Foundations.Bytes
import Wchratum1.Foundations.Words
import Wchratum1.Foundations.Pipeline
import Wchratum1.Foundations.PointerCode
import Wchratum1.Foundations.Wire
import Wchratum1.Foundations.Congruential
import Wchratum1.Ethernet.Driver
import Wchratum1.Ethernet.System
import Wchratum1.Ethernet.Rings
import Wchratum1.Ethernet.Refinement
import Wchratum1.Ethernet.Simulation
import Wchratum1.Ethernet.Conservation
import Wchratum1.Ethernet.LastDescriptor
import Wchratum1.Ethernet.Fifo
import Wchratum1.Ethernet.Irq
import Wchratum1.Ethernet.InTime
import Wchratum1.Ethernet.Drain
import Wchratum1.Ethernet.Blank
import Wchratum1.Ethernet.Wakeup
import Wchratum1.Ethernet.Recovery
import Wchratum1.Ethernet.Linear
import Wchratum1.Prng.SysTick
import Wchratum1.Prng.Chaskey
import Wchratum1.Prng.Generators
import Wchratum1.Prng.Entropy
import Wchratum1.Prng.Refresh
import Wchratum1.Prng.Jitter
import Wchratum1.Prng.Pcg
import Wchratum1.Packet.PacketRx
import Wchratum1.Packet.Answer
import Wchratum1.Packet.Execution
import Wchratum1.Packet.Addressing
import Wchratum1.Packet.Chargen
import Wchratum1.Packet.Storm
import Wchratum1.Packet.Length
import Wchratum1.Packet.Bounds
import Wchratum1.Packet.Leak
import Wchratum1.Packet.Serve
import Wchratum1.Packet.Client
import Wchratum1.Packet.Messages
import Wchratum1.Dhcp.Headers
import Wchratum1.Dhcp.Discover
import Wchratum1.Dhcp.Decode
import Wchratum1.Firmware.Link
import Wchratum1.Firmware.Main
import Wchratum1.Firmware.Ledger
import Wchratum1.Firmware.Log
import Wchratum1.Firmware.Session
import Wchratum1.Firmware.Streams
import Wchratum1.Firmware.LinkRuns
import Wchratum1.Firmware.EthAddr
import Wchratum1.Firmware.Groups
