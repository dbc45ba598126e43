import BoomEd.Lib.SignedInt
import BoomEd.Lib.Bracketing
import BoomEd.Scalar
import BoomEd.Lib.HalfOpen
import BoomEd.Vec2
import BoomEd.Box2
import BoomEd.Union
import BoomEd.Center
import BoomEd.Cells
import BoomEd.Lib.Trunc
import BoomEd.Convert
import BoomEd.BoxConvert
import BoomEd.Formula
import BoomEd.Products
import BoomEd.Lib.Turn
import BoomEd.Orientation
import BoomEd.Lib.Inverses
import BoomEd.Mat22
import BoomEd.Length
import BoomEd.Lib.Binary
import BoomEd.IntLength
import BoomEd.Rotation
import BoomEd.Mat23
import BoomEd.Matrices
import BoomEd.Motion
import BoomEd.Lib.Machine
import BoomEd.Lib.Storage
import BoomEd.CmdFactory
import BoomEd.CmdLedger
import BoomEd.CmdCalls
import BoomEd.Lib.Scope
import BoomEd.CmdScope
import BoomEd.Glfw
import BoomEd.PlatformApp
import BoomEd.App
