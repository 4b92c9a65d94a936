import BpmAcquisition.Server.LowLevel

/-!
# Commands and their handling

The packets of `common.h` and the functions of `server.c` that answer one command: the handler
lookups, `prepare_to_handle` and `handle_request`. A response packet is a C local that is
filled field by field, so what a request does not write keeps its old content.
-/

namespace BpmAcquisition.Server

inductive CommandType where
  | fmc150AdcDelay | fmc150Capture | fmc150GetSamples | fmc150Read | fmc150Write
  | ddcCapture | ddcGetSamples | ddcRead | ddcWrite
  | ddcFmc150Capture | ddcFmc150GetSamples
  | ledRead | ledWrite | softRegRead | softRegWrite
  | quit
deriving DecidableEq

/-- The `command_types` entry a `switch` on the 32-bit command selects. -/
def CommandType.ofCode (comm : UInt32) : Option CommandType :=
  match comm.toNat with
  | 1 => some fmc150AdcDelay
  | 2 => some fmc150Capture
  | 3 => some fmc150GetSamples
  | 4 => some fmc150Read
  | 5 => some fmc150Write
  | 6 => some ddcCapture
  | 7 => some ddcGetSamples
  | 8 => some ddcRead
  | 9 => some ddcWrite
  | 10 => some ddcFmc150Capture
  | 11 => some ddcFmc150GetSamples
  | 12 => some ledRead
  | 13 => some ledWrite
  | 14 => some softRegRead
  | 15 => some softRegWrite
  | 16 => some quit
  | _ => none

def messageId : UInt32 := 1
def fmc150RegValue : UInt32 := 2
def fmc150NewData : UInt32 := 3
def fmc150RemainingData : UInt32 := 4
def ddcNewData : UInt32 := 5
def ddcRemainingData : UInt32 := 6
def softRegNewData : UInt32 := 9
def softRegRemainingData : UInt32 := 10

structure CommandPacket where
  comm : UInt32
  cs : UInt32
  addr : UInt32
  val : UInt32
deriving DecidableEq

/-- `num` counts the valid bytes; `buf` is a pointer that only a request for samples sets. -/
structure ResponsePacket where
  comm : UInt32
  num : UInt32
  buf : UInt32
deriving DecidableEq

def prepareToHandle (c : CommandPacket) : Int :=
  match CommandType.ofCode c.comm with
  | some .fmc150GetSamples => asInt (c.val * adcSampleSize)
  | some .ddcGetSamples => asInt (c.val * ddcSampleSize)
  | _ => 1

/-! ### Handler lookups -/

structure CommandAttr where
  maxSamples : UInt32
  sampleSize : UInt32

-- A dummy operation has no low-level handler to work on (`NULL`) and returns `NOFUNC`.
structure CommandOps where
  captureSamples : Driver → UInt32 → Option Channel → Board → Int × Board
  getSamples : Driver → UInt32 → UInt32 → Option Channel → Board → Int × UInt32 × UInt32 × Board
  readReg : Driver → UInt32 → UInt32 → UInt32 → Board → Int × Board × UInt32
  writeReg : Driver → UInt32 → UInt32 → UInt32 → Board → Int × Board

structure CommandHandler where
  commAttr : CommandAttr
  commOps : CommandOps

structure ResponseHandler where
  newDataId : UInt32
  remainingDataId : UInt32
  byteOffset : UInt32

def captureSamplesDummy (b : Board) : Int × Board := (nofunc, b)

def getSamplesDummy (size byteOffset : UInt32) (b : Board) : Int × UInt32 × UInt32 × Board :=
  (nofunc, size, byteOffset, b)

def readRegDummy (value : UInt32) (b : Board) : Int × Board × UInt32 := (nofunc, b, value)

def writeRegDummy (b : Board) : Int × Board := (nofunc, b)

def channelCapture (drv : Driver) (qwCount : UInt32) (low : Option Channel) (b : Board) : Int × Board :=
  match low with
  | some ch => captureSamples drv qwCount ch b
  | none => captureSamplesDummy b

def channelGet (drv : Driver) (size byteOffset : UInt32) (low : Option Channel) (b : Board) :
    Int × UInt32 × UInt32 × Board :=
  match low with
  | some ch => getSamples drv size byteOffset ch b
  | none => getSamplesDummy size byteOffset b

def fmc150CommAttr : CommandAttr := ⟨maxAdcSamplesCount, adcSampleSize⟩
def ddcCommAttr : CommandAttr := ⟨maxDdcSamplesCount, ddcSampleSize⟩
def softRegAttr : CommandAttr := ⟨0, 0⟩
def ledCommAttr : CommandAttr := ⟨0, 0⟩

def fmc150CommOps : CommandOps where
  captureSamples := channelCapture
  getSamples := channelGet
  readReg := readFmc150Register
  writeReg := writeFmc150Register

def ddcCommOps : CommandOps where
  captureSamples := channelCapture
  getSamples := channelGet
  readReg _ _ _ value b := readRegDummy value b
  writeReg _ _ _ _ b := writeRegDummy b

def softRegOps : CommandOps where
  captureSamples _ _ _ b := captureSamplesDummy b
  getSamples _ size byteOffset _ b := getSamplesDummy size byteOffset b
  readReg drv _ addr _ b := ((readSoftRegister drv addr).1, b, (readSoftRegister drv addr).2)
  writeReg _ _ addr value b := writeSoftRegister addr value b

def ledCommOps : CommandOps where
  captureSamples _ _ _ b := captureSamplesDummy b
  getSamples _ size byteOffset _ b := getSamplesDummy size byteOffset b
  readReg _ _ _ value b := readRegDummy value b
  writeReg _ _ _ _ b := writeRegDummy b

def getCommandHandler : Option CommandType → Option CommandHandler
  | some .fmc150Capture | some .fmc150GetSamples | some .fmc150Read | some .fmc150Write =>
    some ⟨fmc150CommAttr, fmc150CommOps⟩
  | some .ddcCapture | some .ddcGetSamples => some ⟨ddcCommAttr, ddcCommOps⟩
  | some .ledRead | some .ledWrite => some ⟨ledCommAttr, ledCommOps⟩
  | some .softRegRead | some .softRegWrite => some ⟨softRegAttr, softRegOps⟩
  | _ => none

def getResponseHandler : Option CommandType → Option ResponseHandler
  | some .fmc150Capture | some .fmc150GetSamples | some .fmc150Read | some .fmc150Write =>
    some ⟨fmc150NewData, fmc150RemainingData, 0⟩
  | some .ddcCapture | some .ddcGetSamples => some ⟨ddcNewData, ddcRemainingData, 0⟩
  | some .ledRead | some .ledWrite => some ⟨0, 0, 0⟩
  | some .softRegRead | some .softRegWrite => some ⟨softRegNewData, softRegRemainingData, 0⟩
  | _ => none

/-- The inner `none` is the `NULL` handler. -/
def getLowLevelHandler : Option CommandType → Option (Option Channel)
  | some .fmc150Capture | some .fmc150GetSamples | some .fmc150Read | some .fmc150Write =>
    some (some .adc)
  | some .ddcCapture | some .ddcGetSamples => some (some .ddc)
  | some .ledRead | some .ledWrite | some .softRegRead | some .softRegWrite => some none
  | _ => none

/-! ### `handle_request` -/

/-- `response_packet_s->num = sprintf(response_packet_s->buf, ...) + 1`. -/
def message (text : String) (r : ResponsePacket) (b : Board) : ResponsePacket × Board :=
  ({ r with num := UInt32.ofNat text.length + 1 }, b.effect (.sprintf r.buf text))

/-- The text for a failed operation, which also sets `error`, or the one for a successful one. -/
def report (failed : Bool) (bad good : String) (r : ResponsePacket) (b : Board) :
    Bool × ResponsePacket × Board :=
  (failed, message (if failed then bad else good) r b)

def invalidValue (maxSamples : UInt32) : String :=
  "Invalid value! Must be between 0 and " ++ toString maxSamples.toNat

def hexDigit (d : Nat) : Char := "0123456789ABCDEF".toList.getD d '0'

def hex8 (x : UInt32) : String :=
  String.ofList ((List.range 8).reverse.map fun k => hexDigit (x.toNat / 16 ^ k % 16))

def handleCapture (drv : Driver) (val : UInt32) (h : CommandHandler) (low : Option Channel)
    (r : ResponsePacket) (b : Board) : Bool × ResponsePacket × Board :=
  if val > h.commAttr.maxSamples then (true, message (invalidValue h.commAttr.maxSamples) r b)
  else
    let (status, b) := h.commOps.captureSamples drv val low b
    report (status < 0) "Error acquiring data!" "Capture command started successfully!" r b

def handleGetSamples (drv : Driver) (val : UInt32) (h : CommandHandler) (res : ResponseHandler)
    (low : Option Channel) (r : ResponsePacket) (b : Board) : Bool × ResponsePacket × Board :=
  if val > h.commAttr.maxSamples then (true, message (invalidValue h.commAttr.maxSamples) r b)
  else
    let (status, val, byteOffset, b) := h.commOps.getSamples drv val res.byteOffset low b
    if status < 0 then (true, message "Error! Could not acquire data!" r b)
    else
      let memStartAddr := (low.map (·.attr.memStartAddr)).getD 0
      (false,
        { buf := memStartAddr + byteOffset
          comm := if byteOffset = 0 then res.newDataId else res.remainingDataId
          num := val * h.commAttr.sampleSize }, b)

def handleRead (drv : Driver) (c : CommandPacket) (h : CommandHandler) (res : ResponseHandler)
    (r : ResponsePacket) (b : Board) : Bool × ResponsePacket × Board :=
  let (status, b, val) := h.commOps.readReg drv c.cs c.addr c.val b
  if status < 0 then (true, message "Error reading from register!" r b)
  else (false, { r with comm := res.newDataId, num := 4 }, b.effect (.memcpy r.buf val))

def handleWrite (drv : Driver) (c : CommandPacket) (h : CommandHandler) (r : ResponsePacket)
    (b : Board) : Bool × ResponsePacket × Board :=
  let (status, b) := h.commOps.writeReg drv c.cs c.addr c.val b
  report (status < 0) "Error writing to register!" "Write to register ok!" r b

/-- The cases of the `switch`: the `error` flag, the response packet and the board. -/
def handleCommand (drv : Driver) (type : CommandType) (c : CommandPacket) (h : CommandHandler)
    (res : ResponseHandler) (low : Option Channel) (r : ResponsePacket) (b : Board) :
    Bool × ResponsePacket × Board :=
  match type with
  | .fmc150AdcDelay =>
    let (status, b) := updateFmc150AdcDelay (c.val &&& 0x000000FF).toUInt8
      ((c.val &&& 0x0000FF00) >>> 8).toUInt8 ((c.val &&& 0x00FF0000) >>> 16).toUInt8 b
    report (status < 0) "Error updating adc_delay!" "Adc delay successfully updated!" r b
  | .fmc150Capture | .ddcCapture | .ddcFmc150Capture => handleCapture drv c.val h low r b
  | .fmc150GetSamples | .ddcGetSamples | .ddcFmc150GetSamples =>
    handleGetSamples drv c.val h res low r b
  | .fmc150Read | .ddcRead | .softRegRead => handleRead drv c h res r b
  | .fmc150Write | .ddcWrite | .softRegWrite => handleWrite drv c h r b
  | .ledRead =>
    let (status, val) := ledRead drv
    report (status < 0) "Error read from led!" ("Led value: 0x" ++ hex8 val) r b
  | .ledWrite =>
    let (status, b) := ledWrite c.val b
    report (status < 0) "Error writing to led!" "Led successfully written!" r b
  | .quit => (true, message "Server side connection closed!" r b)

def handleRequest (drv : Driver) (c : CommandPacket) (r : ResponsePacket) (b : Board) :
    Int × ResponsePacket × Board :=
  match CommandType.ofCode c.comm with
  | none => (error, r, b)
  | some type =>
    match getCommandHandler (some type), getResponseHandler (some type), getLowLevelHandler (some type) with
    | some h, some res, some low =>
      let (failed, r, b) := handleCommand drv type c h res low { r with comm := messageId } b
      (if failed then error else asInt r.num, r, b)
    | _, _, _ => (error, r, b)

end BpmAcquisition.Server
