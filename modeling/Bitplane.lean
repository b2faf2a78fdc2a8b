import Bitplane.Main
import Bitplane.Palette.Document
import Bitplane.Star
import Bitplane.Proofs.Fill.Toggle
import Bitplane.Proofs.Fill.Crossing
import Bitplane.Proofs.Fill.Scan
import Bitplane.Proofs.Fill.Chains
import Bitplane.Proofs.Fill.Rows
import Bitplane.Proofs.Fill.Buffers
import Bitplane.Proofs.Fill.Parity
import Bitplane.Proofs.Revision.Consistency
import Bitplane.Proofs.DrawList.Shapes
import Bitplane.Proofs.DrawList.Outcomes
import Bitplane.Proofs.Plane.Redraw
import Bitplane.Proofs.Renderer.Frame
import Bitplane.Proofs.Renderer.Lifetime
import Bitplane.Proofs.Renderer.Persistence
import Bitplane.Proofs.Renderer.Refusal
import Bitplane.Proofs.DrawList.Runs
import Bitplane.Proofs.CommandLine.Dump
import Bitplane.Proofs.DrawList.Tiling
import Bitplane.Proofs.Bytes
import Bitplane.Proofs.DrawList.Written
import Bitplane.Proofs.DrawList.Locality
import Bitplane.Proofs.Renderer.Inspection
import Bitplane.Proofs.Fill.Masks
import Bitplane.Proofs.Fill.Ties
import Bitplane.Proofs.Fill.Sides
import Bitplane.Proofs.Script.Packed
import Bitplane.Proofs.Folder
import Bitplane.Proofs.Json.Number
import Bitplane.Proofs.Json.Text
import Bitplane.Proofs.Json.Document
import Bitplane.Proofs.Script.Document
import Bitplane.Proofs.Script.File
import Bitplane.Proofs.CommandLine.Steps
import Bitplane.Proofs.CommandLine.Convert
import Bitplane.Proofs.Polygon
import Bitplane.Proofs.Tween.Record
import Bitplane.Proofs.Tween.Ends
import Bitplane.Proofs.Plane.Tidy
import Bitplane.Proofs.Compositor.Indices
import Bitplane.Proofs.Compositor.Viewport
import Bitplane.Proofs.Plane.History
import Bitplane.Proofs.Compositor.Image
import Bitplane.Proofs.Playback.History
import Bitplane.Proofs.Playback.Order
import Bitplane.Proofs.Playback.Ticks
import Bitplane.Proofs.Playback.Polling
import Bitplane.Proofs.Playback.Elapsed
import Bitplane.Proofs.CommandLine.Play
import Bitplane.Proofs.Script.Sources
import Bitplane.Proofs.Script.Containers
import Bitplane.Proofs.Fill.Placed
import Bitplane.Proofs.Sample.Layout
import Bitplane.Proofs.Sample.Frames
import Bitplane.Proofs.Fill.Sweep
import Bitplane.Proofs.Tween.Motion
import Bitplane.Proofs.Fill.Bounds
import Bitplane.Proofs.Playback.Bounds
import Bitplane.Proofs.Revision.Commands
import Bitplane.Proofs.DrawList.Calls
import Bitplane.Proofs.DrawList.Machine
import Bitplane.Proofs.Text.Blank
import Bitplane.Proofs.Color
import Bitplane.Proofs.Color.Written
import Bitplane.Proofs.Revision.Document
import Bitplane.Proofs.Palette.Document
import Bitplane.Proofs.Palette.Size
import Bitplane.Proofs.Palette.Fade
import Bitplane.Proofs.Options
import Bitplane.Proofs.Fill.Machine
import Bitplane.Proofs.Renderer.Machine
import Bitplane.Proofs.Renderer.Unresolved
import Bitplane.Proofs.Truncation
import Bitplane.Proofs.Fill.Fitted
import Bitplane.Proofs.Fill.Loop
import Bitplane.Proofs.Plane.Pixels
