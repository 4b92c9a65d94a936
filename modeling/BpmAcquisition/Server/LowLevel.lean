import Mathlib.Algebra.Ring.Nat
import Mathlib.Logic.Function.Basic

/-!
# Channels and their low-level operations

The constants and structures of `common.h` and `low_level_op.h`, and the operations of
`low_level_op.c`. C's `u32` is `UInt32`; `asInt` is its conversion to `int`. The devices are a
`Driver` that answers the calls of one request, and every access to them is logged as an
`Effect`.
-/

namespace BpmAcquisition.Server

def asInt (x : UInt32) : Int := x.toBitVec.toInt

def success : Int := 0
def error : Int := -1
def nofunc : Int := -2
def xstSuccess : Int := 0

def maxDmaTransferSize : UInt32 := 8388608
def adcSampleSize : UInt32 := 4
def ddcSampleSize : UInt32 := 16
def maxAdcSamplesCount : UInt32 := maxDmaTransferSize / adcSampleSize - 1
def maxDdcSamplesCount : UInt32 := maxDmaTransferSize / ddcSampleSize - 1
def responsePacketHeaderSize : UInt32 := 8
def responsePacketBufSize : UInt32 := 4096
def responsePacketMaxAdcSamples : UInt32 := responsePacketBufSize / adcSampleSize
def responsePacketMaxDdcSamples : UInt32 := responsePacketBufSize / ddcSampleSize
def maxDmaTries : Nat := 5

def fmc150Baseaddr : UInt32 := 0x71000000
def fmc150StatusRegOffset : UInt32 := 9 * 0x4
def bpmDdcBaseaddr : UInt32 := 0x7E820000
def bpmDdcStatusRegOffset : UInt32 := 1 * 0x4
def ledBaseaddr : UInt32 := 0x40000000
def ddr3Baseaddr : UInt32 := 0xC0000000
def ddr3DmaAdcBuffer : UInt32 := ddr3Baseaddr + 0x1000000
def ddr3DmaDdcBuffer : UInt32 := ddr3Baseaddr + 0x2000000

def adcId : UInt32 := 1
def ddcId : UInt32 := 2

/-- The two handlers `fmc150_adc_low_level_handler` and `ddc_low_level_handler`. -/
inductive Channel where
  | adc
  | ddc
deriving DecidableEq

structure LowLevelAttr where
  sampleSize : UInt32
  memStartAddr : UInt32
  maxRespBufferPackets : UInt32

structure LowLevelHandler where
  samplesCount : UInt32
  samplesCountPos : UInt32
deriving DecidableEq

namespace Channel

def id : Channel → UInt32
  | adc => adcId
  | ddc => ddcId

def baseaddr : Channel → UInt32
  | adc => fmc150Baseaddr + 0x020
  | ddc => bpmDdcBaseaddr

def attr : Channel → LowLevelAttr
  | adc => ⟨adcSampleSize, ddr3DmaAdcBuffer, responsePacketMaxAdcSamples⟩
  | ddc => ⟨ddcSampleSize, ddr3DmaDdcBuffer, responsePacketMaxDdcSamples⟩

end Channel

/-! ### The devices -/

/-- What the driver calls return while one request is handled; no register is read twice. -/
structure Driver where
  simpleTransfer : Int
  dmaBusy : Nat → Bool
  in32 : UInt32 → UInt32

inductive Effect where
  | out32 (addr value : UInt32)
  | simpleTransfer (ch : Channel) (addr length : UInt32)
  | sprintf (buf : UInt32) (text : String)
  | memcpy (buf : UInt32) (value : UInt32)
deriving DecidableEq

structure Board where
  handler : Channel → LowLevelHandler
  log : List Effect

def Board.boot : Board := ⟨fun _ => ⟨0, 0⟩, []⟩

def Board.effect (b : Board) (e : Effect) : Board := { b with log := b.log ++ [e] }

def Board.setHandler (b : Board) (ch : Channel) (h : LowLevelHandler) : Board :=
  { b with handler := Function.update b.handler ch h }

@[simp] theorem Board.handler_effect (b : Board) (e : Effect) : (b.effect e).handler = b.handler := rfl

@[simp] theorem Board.log_effect (b : Board) (e : Effect) : (b.effect e).log = b.log ++ [e] := rfl

@[simp] theorem Board.log_setHandler (b : Board) (ch : Channel) (h : LowLevelHandler) :
    (b.setHandler ch h).log = b.log := rfl

@[simp] theorem Board.handler_setHandler (b : Board) (ch : Channel) (h : LowLevelHandler) :
    (b.setHandler ch h).handler = Function.update b.handler ch h := rfl

/-! ### Registers -/

def readSoftRegister (drv : Driver) (addr : UInt32) : Int × UInt32 := (success, drv.in32 addr)

def writeSoftRegister (addr value : UInt32) (b : Board) : Int × Board :=
  (success, b.effect (.out32 addr value))

def ledRead (drv : Driver) : Int × UInt32 := (success, drv.in32 ledBaseaddr)

def ledWrite (value : UInt32) (b : Board) : Int × Board :=
  (success, b.effect (.out32 ledBaseaddr value))

def offsetFmc150FlagsPulse0 : UInt32 := 0x0
def offsetFmc150FlagsIn0 : UInt32 := 0x1
def offsetFmc150FlagsOut0 : UInt32 := 0x2
def offsetFmc150Addr : UInt32 := 0x3
def offsetFmc150Datain : UInt32 := 0x4
def offsetFmc150Dataout : UInt32 := 0x5
def offsetFmc150Chipselect : UInt32 := 0x6
def offsetFmc150AdcDelay : UInt32 := 0x7
def maskAndFlagsin0SpiWrite : UInt32 := 0xFFFFFFFE
def maskOrFlagsin0SpiRead : UInt32 := 0x1
def maskAndFlagsout0SpiBusy : UInt32 := 0x1

def fmc150Reg (offset : UInt32) : UInt32 := fmc150Baseaddr + offset * 0x4

-- The last component is `*value`, which keeps its old content on an error.
def readFmc150Register (drv : Driver) (chipselect addr value : UInt32) (b : Board) :
    Int × Board × UInt32 :=
  if drv.in32 (fmc150Reg offsetFmc150FlagsOut0) &&& maskAndFlagsout0SpiBusy ≠ maskAndFlagsout0SpiBusy then
    let flags := drv.in32 (fmc150Reg offsetFmc150FlagsIn0)
    let b := b.effect (.out32 (fmc150Reg offsetFmc150FlagsIn0) (flags ||| maskOrFlagsin0SpiRead))
    let b := b.effect (.out32 (fmc150Reg offsetFmc150Addr) addr)
    let select := drv.in32 (fmc150Reg offsetFmc150Chipselect) ^^^ chipselect
    let b := b.effect (.out32 (fmc150Reg offsetFmc150Chipselect) select)
    (success, b, drv.in32 (fmc150Reg offsetFmc150Dataout))
  else (error, b, value)

def writeFmc150Register (drv : Driver) (chipselect addr value : UInt32) (b : Board) : Int × Board :=
  let flags := drv.in32 (fmc150Reg offsetFmc150FlagsIn0)
  let b := b.effect (.out32 (fmc150Reg offsetFmc150FlagsIn0) (flags &&& maskAndFlagsin0SpiWrite))
  let b := b.effect (.out32 (fmc150Reg offsetFmc150Addr) addr)
  let b := b.effect (.out32 (fmc150Reg offsetFmc150Datain) value)
  let select := drv.in32 (fmc150Reg offsetFmc150Chipselect) ^^^ chipselect
  (success, b.effect (.out32 (fmc150Reg offsetFmc150Chipselect) select))

def updateFmc150AdcDelay (adcStrobeDelay adcChaDelay adcChbDelay : UInt8) (b : Board) : Int × Board :=
  let auxValue := adcStrobeDelay.toUInt32 + (adcChaDelay.toUInt32 <<< 8) + (adcChbDelay.toUInt32 <<< 16)
  let b := b.effect (.out32 (fmc150Reg offsetFmc150AdcDelay) auxValue)
  (success, b.effect (.out32 (fmc150Reg offsetFmc150FlagsPulse0) 0x1))

/-! ### Captures -/

def captureSamples (drv : Driver) (qwCount : UInt32) (ch : Channel) (b : Board) : Int × Board :=
  let b := b.setHandler ch { samplesCountPos := 0, samplesCount := qwCount }
  let qwCountFix := if ch.id = adcId then qwCount else qwCount - 1
  let b :=
    if ch.id = adcId then (writeSoftRegister (fmc150Baseaddr + fmc150StatusRegOffset) 0 b).2
    else if ch.id = ddcId then (writeSoftRegister (bpmDdcBaseaddr + bpmDdcStatusRegOffset) 0 b).2
    else b
  let b := b.effect (.simpleTransfer ch ch.attr.memStartAddr (qwCount * ch.attr.sampleSize))
  if drv.simpleTransfer ≠ xstSuccess then (error, b)
  else
    let b := b.effect (.out32 ch.baseaddr 0x00000000)
    (success, b.effect (.out32 ch.baseaddr (0x00200000 ||| qwCountFix)))

def dmaTimedOut (drv : Driver) : Bool := (List.range maxDmaTries).all drv.dmaBusy

def presetSize (h : LowLevelHandler) (size : UInt32) : UInt32 :=
  if h.samplesCountPos + size > h.samplesCount then h.samplesCount - h.samplesCountPos else 1

-- `(tmp_size = *size)` is an assignment and a test: a zero size skips the capture.
def ensureCaptured (drv : Driver) (tmpSize size : UInt32) (ch : Channel) (b : Board) :
    Int × UInt32 × Board :=
  if asInt tmpSize ≤ 0 then
    if size ≠ 0 then ((captureSamples drv size ch b).1, size, (captureSamples drv size ch b).2)
    else (success, size, b)
  else (success, tmpSize, b)

-- The comparison with the packet limit is unsigned.
def deliver (drv : Driver) (tmpSize byteOffset : UInt32) (ch : Channel) (b : Board) :
    Int × UInt32 × UInt32 × Board :=
  let size := if tmpSize > ch.attr.maxRespBufferPackets then ch.attr.maxRespBufferPackets else tmpSize
  if dmaTimedOut drv then (error, size, byteOffset, b)
  else
    let h := b.handler ch
    (success, size, h.samplesCountPos * ch.attr.sampleSize,
      b.setHandler ch { h with samplesCountPos := h.samplesCountPos + size })

/-- The components are the status, `*size`, `*byte_offset` and the board. -/
def getSamples (drv : Driver) (size byteOffset : UInt32) (ch : Channel) (b : Board) :
    Int × UInt32 × UInt32 × Board :=
  let (captured, tmpSize, b) := ensureCaptured drv (presetSize (b.handler ch) size) size ch b
  if captured < 0 then (error, size, byteOffset, b) else deliver drv tmpSize byteOffset ch b

end BpmAcquisition.Server
