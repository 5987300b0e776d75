import Cesvga2.Allocator.Heap
import Cesvga2.Allocator.ToFree
import Cesvga2.Allocator.Malloc
import Cesvga2.Allocator.Free
import Cesvga2.Allocator.Realloc
import Cesvga2.Allocator.Runs
import Cesvga2.Allocator.Check
import Cesvga2.Allocator.Coalesce
import Cesvga2.Fifo.Device
import Cesvga2.Rings.Window
import Cesvga2.Fifo.Commit
import Cesvga2.Fifo.Stream
import Cesvga2.GL.Stream
import Cesvga2.GL.Bounds
import Cesvga2.IPP.Decode
import Cesvga2.IPP.Submit
import Cesvga2.IPP.Reach
import Cesvga2.IPP.Bounds
import Cesvga2.Surface.State
import Cesvga2.Surface.Backing
import Cesvga2.Surface.Calls
import Cesvga2.Surface.Window
import Cesvga2.Surface.Contained
import Cesvga2.Refs.Count
import Cesvga2.Textures.Device
import Cesvga2.Textures.Registry
import Cesvga2.Textures.Delete
import Cesvga2.Textures.Init
import Cesvga2.Textures.Create
import Cesvga2.Textures.Client
import Cesvga2.Textures.Context
import Cesvga2.Textures.Grown
import Cesvga2.Textures.Slots
import Cesvga2.Textures.Tokens
import Cesvga2.Textures.Protocol
import Cesvga2.IPP.Bind
import Cesvga2.GL.Host
import Cesvga2.IPP.Words
import Cesvga2.GL.DrawBuffer
import Cesvga2.GL.Rewrite
import Cesvga2.Cuts.Segments
import Cesvga2.GL.Segments
import Cesvga2.IPP.Parse
import Cesvga2.GL.Pipeline
import Cesvga2.GL.Confined
import Cesvga2.Fence.Device
import Cesvga2.Fence.Present
import Cesvga2.Bits.Bitmap
import Cesvga2.Ids.Pool
import Cesvga2.Ids.Accel
import Cesvga2.Ids.Accounted
import Cesvga2.Chains.Walk
import Cesvga2.Gmr.Create
import Cesvga2.Formats.Frames
import Cesvga2.Wire.Command
import Cesvga2.Wire.Parse
import Cesvga2.Wire.Driver
import Cesvga2.IPP.RenderState
import Cesvga2.GL.FenceBuffer
import Cesvga2.GLD.Fence
import Cesvga2.Accel.Master
import Cesvga2.Fence.Sync
import Cesvga2.GL.VertexArray
import Cesvga2.Planes.Image
import Cesvga2.Surface.Screen
import Cesvga2.Surface.Output
import Cesvga2.Surface.GLFlush
import Cesvga2.Ledgers.Log
import Cesvga2.Surface.Owner
import Cesvga2.Surface.Owned
import Cesvga2.Allocator.Client
import Cesvga2.Surface.Leak
import Cesvga2.Bits.Holders
import Cesvga2.Surface.Video
import Cesvga2.Surface.VideoFrame
import Cesvga2.Allocator.Scan
import Cesvga2.Allocator.Fit
import Cesvga2.Allocator.Contents
import Cesvga2.Fifo.Drained
import Cesvga2.Wire.Attempt
import Cesvga2.Accel.Region
import Cesvga2.Gmr.Transfer
import Cesvga2.Loops.Checked
import Cesvga2.Textures.Load
import Cesvga2.GL.Loads
import Cesvga2.Textures.Paging
import Cesvga2.Textures.Coherence
import Cesvga2.Textures.DrawFBO
import Cesvga2.Textures.Full
import Cesvga2.Textures.Descriptors
import Cesvga2.Textures.Atomic
import Cesvga2.Textures.Registered
import Cesvga2.Accel.Blit
import Cesvga2.Surface.Clip
import Cesvga2.Surface.CopyRegion
import Cesvga2.GL.Framebuffer
import Cesvga2.Cuts.Consecutive
import Cesvga2.IPP.VertexFormat
import Cesvga2.IPP.TexCoords
import Cesvga2.Polygons.Strip
import Cesvga2.IPP.Polygon
import Cesvga2.IPP.Samplers
import Cesvga2.Leases.Table
import Cesvga2.Textures.Hosts
import Cesvga2.Textures.Cached
import Cesvga2.FB.Cursor
import Cesvga2.FB.Edid
import Cesvga2.FB.Modes
import Cesvga2.FB.Switch
import Cesvga2.GLD.Displays
import Cesvga2.MachO.Fix32
import Cesvga2.Surface.Locks
import Cesvga2.Surface.RenderTarget
import Cesvga2.GA.Start
import Cesvga2.Links.Pending
import Cesvga2.GLD.Programs
import Cesvga2.GLD.Races
import Cesvga2.GLD.Interleavings
import Cesvga2.Formats.Prefix
import Cesvga2.Wire.Channel
import Cesvga2.Surface.Contexts
import Cesvga2.FB.Refresh
