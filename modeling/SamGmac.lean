import SamGmac.Desc
import SamGmac.RingBuf
import SamGmac.Tx.Queue
import SamGmac.Tx.System
import SamGmac.Tx.Ring
import SamGmac.Tx.Post
import SamGmac.Tx.Call
import SamGmac.Rx.Queue
import SamGmac.Rx.System
import SamGmac.Rx.Buffers
import SamGmac.Rx.FrameGet
import SamGmac.Rx.Simulation
import SamGmac.Queue
import SamGmac.Init
import SamGmac.Ptp
import SamGmac.Mac
import SamGmac.Rx.Frames
import SamGmac.Rx.Assertions
