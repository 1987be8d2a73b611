import GrReveng.Library.Reactive
import GrReveng.Library.ShiftRegister
import GrReveng.Library.ShiftIn
import Mathlib.Data.Rat.Defs

/-!
# The packet deframer block

`packet_deframer_impl` as a reactive machine on byte samples. The arguments of the constructor
never change and stay in `Config`; `State` has the members that `work` writes. Machine integers
have the widths of the members, and a conversion between `int` and `uint32_t` is written where
the language inserts one. An exception of `std::vector::reserve` leaves `work`, so the machine
stops there. Published data leave `work` before the clock reading and the name are attached to
them (`pdu`), because neither reaches the state.
-/

namespace GrReveng.PacketDeframer

open Reactive

/-- Arguments of `packet_deframer::make`. -/
structure Config where
  /-- Name sent along in the metadata. -/
  name : String
  /-- Samples of the sync word. -/
  sync : List Int8
  /-- Fixed length mode; variable length otherwise. -/
  fixedLen : Bool
  /-- Bits after the sync word in fixed length mode. -/
  pktLen : Int32
  /-- Largest accepted value of the length byte; not checked when it is not positive. -/
  maxLen : Int32
  /-- Bytes before the length byte. -/
  pktLenOffset : Int32
  /-- Bytes after those that the length byte counts. -/
  pktLenAdj : Int32
  /-- Publish bytes instead of samples. -/
  packBytes : Bool
  deriving DecidableEq

/-- Members of the block that change while it runs. -/
structure State (syncLen : Nat) where
  /-- `d_tmp_byte`, the bits of an incomplete byte. -/
  tmpByte : UInt8
  /-- `d_rx_bit_cnt`, samples captured since the sync word. -/
  rxBitCnt : UInt32
  /-- `d_search`, the last samples searched. -/
  search : ShiftRegister Int8 syncLen
  /-- `d_in_sync`, a capture is running. -/
  inSync : Bool
  /-- `d_have_len`, the end of the packet is known. -/
  haveLen : Bool
  /-- `d_packet`, the captured data. -/
  packet : List Int8
  /-- `d_pkt_len`, the length bits so far and then the number of bits that ends the packet. -/
  pktLen : Int32
  deriving DecidableEq

/-- States of a block with given arguments. -/
abbrev Config.State (cfg : Config) : Type := PacketDeframer.State cfg.sync.length

/-- `d_sync`, filled by the constructor one sample at a time. -/
def Config.syncRegister (cfg : Config) : ShiftRegister Int8 cfg.sync.length :=
  ShiftRegister.empty.pushAll cfg.sync

/-- `d_pkt_len_offset`, which the constructor converts to bits. -/
def Config.pktLenOffsetBits (cfg : Config) : Int32 := cfg.pktLenOffset * 8

/-- Members that the constructor leaves uninitialised. -/
structure Uninitialised where
  /-- Indeterminate `d_tmp_byte`. -/
  tmpByte : UInt8
  /-- Indeterminate `d_rx_bit_cnt`. -/
  rxBitCnt : UInt32
  /-- Indeterminate `d_have_len`. -/
  haveLen : Bool

/-- The constructor. -/
def make (cfg : Config) (garbage : Uninitialised) : cfg.State where
  tmpByte := garbage.tmpByte
  rxBitCnt := garbage.rxBitCnt
  search := ShiftRegister.empty
  inSync := false
  haveLen := garbage.haveLen
  packet := []
  pktLen := cfg.pktLen

/-- Exceptions that leave `work`. -/
inductive StdException
  /-- `std::length_error`. -/
  | lengthError
  deriving DecidableEq

/-- `std::vector<char>::max_size`, half the range of `size_t`. -/
def maxSize : Nat := 2 ^ 63 - 1

/-- `std::vector<char>::reserve`; the `int` argument is converted to `size_t`. -/
def reserve (count : Int32) : Except StdException Unit :=
  if count.toInt64.toUInt64.toNat ≤ maxSize then .ok () else .error .lengthError

/-- Room for a packet of so many bits. -/
def reservePacket (cfg : Config) (pktLen : Int32) : Except StdException Unit :=
  if cfg.packBytes then reserve (pktLen / 8) else reserve pktLen

/-- The first half of `add_symbol`: count the symbol and put it onto the buffer. -/
def bufferSymbol (cfg : Config) (s : cfg.State) (symbol : Int8) : cfg.State :=
  let rxBitCnt := s.rxBitCnt + 1
  if cfg.packBytes then
    let tmpByte := (s.tmpByte <<< 1) ||| (symbol &&& 1).toUInt8
    if rxBitCnt % 8 = 0 then
      { s with rxBitCnt := rxBitCnt, packet := s.packet ++ [tmpByte.toInt8], tmpByte := 0 }
    else { s with rxBitCnt := rxBitCnt, tmpByte := tmpByte }
  else { s with rxBitCnt := rxBitCnt, packet := s.packet ++ [symbol] }

/-- The bit count that ends a packet. The sum is unsigned, and its value is stored as an `int`. -/
def targetLen (cfg : Config) (rxBitCnt : UInt32) (length : Int32) : Int32 :=
  (rxBitCnt + (length * 8).toUInt32 + (cfg.pktLenAdj * 8).toUInt32).toInt32

/-- The length byte is refused: the maximum is enabled and exceeded. -/
def Config.Refuses (cfg : Config) (length : Int32) : Prop := 0 < cfg.maxLen ∧ cfg.maxLen < length

instance (cfg : Config) (length : Int32) : Decidable (cfg.Refuses length) :=
  inferInstanceAs (Decidable (0 < cfg.maxLen ∧ cfg.maxLen < length))

/-- The part of `add_symbol` that runs when the length byte is complete. A refused length ends
the capture, and the rest runs as for any other length. -/
def completeLength (cfg : Config) (s : cfg.State) : Except StdException cfg.State := do
  let s := if cfg.Refuses s.pktLen then { s with inSync := false } else s
  let s := { s with pktLen := targetLen cfg s.rxBitCnt s.pktLen, haveLen := true }
  reservePacket cfg s.pktLen
  return s

/-- `add_symbol`. Comparing `d_rx_bit_cnt` with an `int` converts the `int`. -/
def addSymbol (cfg : Config) (s : cfg.State) (symbol : Int8) : Except StdException cfg.State :=
  let s := bufferSymbol cfg s symbol
  if s.haveLen then .ok s
  else if cfg.pktLenOffsetBits.toUInt32 < s.rxBitCnt then
    let s := { s with pktLen := (s.pktLen <<< 1) ||| symbol.toInt32 }
    if s.rxBitCnt = (cfg.pktLenOffsetBits + 8).toUInt32 then completeLength cfg s else .ok s
  else .ok s

/-- The assignments of `work` when the sync word is found. -/
def startCapture (cfg : Config) (s : cfg.State) : Except StdException cfg.State :=
  let s := { s with inSync := true, rxBitCnt := 0, tmpByte := 0, packet := [] }
  if cfg.fixedLen then do
    reservePacket cfg s.pktLen
    reserve s.pktLen
    return { s with haveLen := true }
  else .ok { s with haveLen := false, pktLen := 0 }

/-- One iteration of the loop in `work`. The end of a packet is tested after `add_symbol`
whatever became of `d_in_sync`. -/
def react (cfg : Config) (s : cfg.State) (symbol : Int8) :
    Reaction cfg.State (List UInt8) StdException :=
  if s.inSync then
    match addSymbol cfg s symbol with
    | .error e => ⟨[], .error e⟩
    | .ok s =>
      if s.haveLen ∧ s.pktLen.toUInt32 ≤ s.rxBitCnt then
        ⟨[s.packet.map Int8.toUInt8], .ok { s with inSync := false }⟩
      else ⟨[], .ok s⟩
  else
    let s := { s with search := s.search.push symbol }
    if s.search = cfg.syncRegister then ⟨[], startCapture cfg s⟩ else ⟨[], .ok s⟩

/-- Transitions of the block. -/
abbrev Config.Transition (cfg : Config) : Type :=
  Reactive.Transition cfg.State Int8 (List UInt8) StdException

/-- Calls of `work` on a fresh block, one for each chunk of the stream. -/
def run (cfg : Config) (garbage : Uninitialised) (chunks : List (List Int8)) :
    Run cfg.State Int8 (List UInt8) StdException :=
  feed (react cfg) (make cfg garbage) chunks

/-- Data of the published messages, in order. -/
def published (cfg : Config) (garbage : Uninitialised) (chunks : List (List Int8)) :
    List (List UInt8) :=
  (run cfg garbage chunks).published

/-- A successful reading of `gettimeofday`. -/
structure Timeval where
  /-- Seconds. -/
  sec : Int
  /-- Microseconds. -/
  usec : Int

/-- The metadata dictionary of a message. -/
structure Meta where
  /-- The entry `name`. -/
  name : String
  /-- The entry `packed`. -/
  packed : Bool
  /-- The entry `ts`. -/
  ts : ℚ

/-- A published message. -/
structure Pdu where
  /-- Metadata, the car of the pair. -/
  metadata : Meta
  /-- The data vector, the cdr of the pair. -/
  data : List UInt8

/-- The time stamp of a reading; a failed reading gives minus one. -/
def timeStamp : Option Timeval → ℚ
  | some reading => reading.sec + reading.usec / 100000
  | none => -1

/-- The message of published data, with the clock reading taken for it. -/
def pdu (cfg : Config) (reading : Option Timeval) (data : List UInt8) : Pdu :=
  ⟨⟨cfg.name, cfg.packBytes, timeStamp reading⟩, data⟩

/-- The messages of a run; `clock i` is the reading taken for the `i`-th of them. -/
def messages (cfg : Config) (clock : Nat → Option Timeval) (garbage : Uninitialised)
    (chunks : List (List Int8)) : List Pdu :=
  (published cfg garbage chunks).mapIdx fun i data => pdu cfg (clock i) data

end GrReveng.PacketDeframer
