import BpmAcquisition.Hardware.WriteStream
import BpmAcquisition.Hardware.Overflow
import BpmAcquisition.Hardware.ReadSide
import BpmAcquisition.Server.LowLevel
import BpmAcquisition.Server.Request
import BpmAcquisition.Server.Cursor
import BpmAcquisition.Server.Process
import BpmAcquisition.Server.Acquisition
import BpmAcquisition.Server.Transfer
import BpmAcquisition.Server.Answers
import BpmAcquisition.Client.Reader
import BpmAcquisition.Server.Replies
import BpmAcquisition.Client.Acquire
import BpmAcquisition.Server.Turns
import BpmAcquisition.Server.Sharing
import BpmAcquisition.Capture.Size
import BpmAcquisition.Hardware.StatusRegister
import BpmAcquisition.Capture.Status
import BpmAcquisition.Server.Failures
import BpmAcquisition.Server.Bounds
import BpmAcquisition.Server.Receive
import BpmAcquisition.Client.Commands
import BpmAcquisition.Client.Pack
import BpmAcquisition.Server.Descriptors
import BpmAcquisition.Server.ResponseBuffer
import BpmAcquisition.Server.StaleData
import BpmAcquisition.Hardware.Completion
import BpmAcquisition.Hardware.DeltaSigma
import BpmAcquisition.Hardware.Quotients
import BpmAcquisition.Hardware.Backpressure
import BpmAcquisition.Server.Assigned
import BpmAcquisition.Server.Rounds
import BpmAcquisition.Server.Sizes
import BpmAcquisition.Server.Spi
import BpmAcquisition.Client.Tokenize
import BpmAcquisition.Hardware.ShiftRanges
import BpmAcquisition.Server.RegisterRequests
import BpmAcquisition.Server.Startup
