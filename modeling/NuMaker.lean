import NuMaker.Lib.Overlay
import NuMaker.Lib.Transaction
import NuMaker.Lib.BitField
import NuMaker.Lib.BitMask
import NuMaker.Lib.Ledger
import NuMaker.Lib.Latch
import NuMaker.Rmc.Flash
import NuMaker.Rmc.Driver
import NuMaker.Rmc.Overlay
import NuMaker.Rmc.Erase
import NuMaker.Rmc.Concurrent
import NuMaker.Canfd.Timing
import NuMaker.NuUtils.BitUtil
import NuMaker.Pdma.Registers
import NuMaker.Pdma.Driver
import NuMaker.Pdma.Tokens
import NuMaker.Pdma.Transfer
import NuMaker.Pdma.Run
import NuMaker.Pdma.Channels
import NuMaker.Pdma.Ownership
import NuMaker.Pdma.Chain
import NuMaker.Pdma.Isr
import NuMaker.Pdma.Dispatch
import NuMaker.Pdma.Delivery
import NuMaker.Lib.ByteCopy
import NuMaker.Pdma.Engine
import NuMaker.Pdma.Start
import NuMaker.Pdma.Handlers
import NuMaker.Pdma.Memfun
import NuMaker.Pdma.Memcpy
import NuMaker.Pdma.MemcpyRuns
import NuMaker.Lib.Fill
import NuMaker.Canfd.MessageRam
import NuMaker.Canfd.Elements
import NuMaker.Canfd.Driver
import NuMaker.Canfd.Frames
import NuMaker.Lib.Shares
import NuMaker.Lib.Reach
import NuMaker.Canfd.Reception
import NuMaker.Canfd.Transmission
import NuMaker.Canfd.Filter
import NuMaker.Uart.Reception
import NuMaker.Uart.Accounting
import NuMaker.Usb.Host
import NuMaker.Usb.Control
import NuMaker.Usb.Interleaving
import NuMaker.Usb.Pipes
import NuMaker.Ohci.Driver
import NuMaker.Ohci.Pool
import NuMaker.Ohci.Submit
import NuMaker.Ohci.Layout
import NuMaker.Ohci.Removal
import NuMaker.Ohci.Handler
import NuMaker.Ohci.Conservation
import NuMaker.Ohci.Growth
import NuMaker.Ohci.Steps
import NuMaker.Ohci.Requests
import NuMaker.Ohci.Periodic
import NuMaker.Ohci.Runs
import NuMaker.Ohci.Accounting
import NuMaker.Ohci.Coverage
import NuMaker.Touch.Sampling
import NuMaker.Lib.Framing
import NuMaker.Touch.Calibration
import NuMaker.Touch.Serial
import NuMaker.Touch.Solve
import NuMaker.Audio.Replay
import NuMaker.Audio.Playback
import NuMaker.Audio.Writer
import NuMaker.Pdma.TimeOut
import NuMaker.Lib.Orbit
import NuMaker.Pdma.SgList
import NuMaker.Pdma.Shortage
import NuMaker.Pdma.Contract
import NuMaker.Lib.Tiling
import NuMaker.Canfd.RamLayout
import NuMaker.Lib.Search
import NuMaker.Canfd.TimingSearch
import NuMaker.Lib.Digits
import NuMaker.Rtc.Calendar
import NuMaker.Rtc.Driver
import NuMaker.Rtc.RoundTrip
import NuMaker.Lib.Remainder
import NuMaker.Crc.Driver
import NuMaker.Crc.Update
import NuMaker.Pdma.Clients
import NuMaker.NuUtils.Bytes
import NuMaker.Lib.Divider
import NuMaker.Spi.Controller
import NuMaker.Spi.Configure
import NuMaker.Lib.Fairness
import NuMaker.Spi.Poll
import NuMaker.Spi.Exchange
import NuMaker.Spi.Overrun
import NuMaker.Qspi.Message
import NuMaker.I2c.Controller
import NuMaker.I2c.Transfer
import NuMaker.I2c.Plan
import NuMaker.I2c.Honest
import NuMaker.I2c.Errors
import NuMaker.Lib.Rounding
import NuMaker.Wdt.Driver
import NuMaker.Wdt.Windows
import NuMaker.Wdt.Neglect
import NuMaker.Gpio.Driver
import NuMaker.Gpio.Table
import NuMaker.Gpio.Edges
import NuMaker.Lib.Carry
import NuMaker.Pm.Timer
import NuMaker.Epwm.Capture
import NuMaker.Pwm.Pairs
import NuMaker.Epwm.Output
import NuMaker.Usbd.Address
import NuMaker.Lib.Pieces
import NuMaker.Usbd.ControlPipe
import NuMaker.Lib.Nearest
import NuMaker.Clk.Driver
import NuMaker.Clk.Frequency
import NuMaker.Clk.Switch
import NuMaker.Clk.Pll
import NuMaker.Lib.Mealy
import NuMaker.Lib.Cipher
import NuMaker.Crypto.Driver
import NuMaker.Crypto.Chaining
import NuMaker.Lib.Polling
import NuMaker.Trng.Driver
import NuMaker.Trng.Fresh
import NuMaker.Lib.Unwinding
import NuMaker.Timer.Driver
import NuMaker.Timer.Independence
import NuMaker.Lib.Raster
import NuMaker.Lcd.Ili9341
import NuMaker.Lib.Stages
import NuMaker.I2c.MultiBytes
import NuMaker.Lib.TwoWire
import NuMaker.I2c.BitOps
import NuMaker.Rmc.Isp
import NuMaker.Rmc.Otp
import NuMaker.Spi.Rates
import NuMaker.Uart.Baud
import NuMaker.Uart.Usci
import NuMaker.Usci.Clock
import NuMaker.Pwm.Frequency
import NuMaker.Clk.Ready
import NuMaker.Lib.Numeral
import NuMaker.Gpio.Names
import NuMaker.Timer.Rates
import NuMaker.I2s.Configure
import NuMaker.Ecap.Widths
import NuMaker.Pwm.Capture
import NuMaker.Lib.Countdown
import NuMaker.Clk.Delay
import NuMaker.Timer.Delay
import NuMaker.Pwm.Readback
