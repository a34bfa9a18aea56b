import Trigger.Foundation.Memory
import Trigger.Foundation.Fallible
import Trigger.Foundation.Scalar
import Trigger.Foundation.Binary32
import Trigger.Foundation.Runs
import Trigger.Foundation.Grid
import Trigger.Foundation.Ranking
import Trigger.Foundation.Sliding
import Trigger.Foundation.Scanning
import Trigger.Foundation.Cells
import Trigger.Foundation.Rounding
import Trigger.Foundation.Printing
import Trigger.Foundation.Heap
import Trigger.CJson.Parser
import Trigger.CJson.ParserSafety
import Trigger.CJson.Grammar
import Trigger.CJson.Completeness
import Trigger.CJson.Printer
import Trigger.CJson.PrinterSafety
import Trigger.CJson.Reread
import Trigger.CJson.Nodes
import Trigger.CJson.Forest
import Trigger.CJson.Holdings
import Trigger.CJson.Access
import Trigger.CJson.Building
import Trigger.Config.Json
import Trigger.Config.Level
import Trigger.Config.Loader
import Trigger.Config.Texts
import Trigger.Editor.Save
import Trigger.Editor.Saved
import Trigger.Editor.RoundTrip
import Trigger.Engine.Tiles
import Trigger.Engine.Geometry
import Trigger.Engine.Player
import Trigger.Engine.Collision
import Trigger.Engine.Steps
import Trigger.Engine.Entities
import Trigger.Engine.Growth
import Trigger.Engine.Passes
import Trigger.Engine.Map
import Trigger.Engine.Roster
import Trigger.Engine.NonPenetration
import Trigger.Engine.DoorLift
import Trigger.Engine.DoorHeights
import Trigger.Engine.Loading
import Trigger.Engine.Flight
import Trigger.Engine.Ownership
import Trigger.Engine.DoorMessage
import Trigger.Engine.Menu
import Trigger.Editor.Roles
import Trigger.Editor.Palette
import Trigger.Editor.Merging
import Trigger.Editor.Identity
import Trigger.Editor.Open
import Trigger.Editor.Canvas
import Trigger.Editor.Reopen
import Trigger.Editor.LevelFiles
import Trigger.Editor.LevelTree
import Trigger.Terminal.Cleaning
import Trigger.Terminal.Console
import Trigger.Terminal.Chunking
import Trigger.Terminal.LineEditor
import Trigger.Terminal.Output
import Trigger.Terminal.Typing
import Trigger.Terminal.Scanner
import Trigger.Terminal.Filter
import Trigger.Terminal.Echo
import Trigger.Terminal.Sequences
import Trigger.Engine.Context
import Trigger.Engine.Frames
import Trigger.Engine.Indices
import Trigger.Engine.TextureSlots
import Trigger.Engine.TextureRelease
import Trigger.Engine.Spawning
import Trigger.Engine.Animation
import Trigger.Engine.LevelList
import Trigger.Engine.WildAccess
import Trigger.Engine.LivePlayer
import Trigger.Engine.ConsoleInGame
import Trigger.Editor.Session
import Trigger.Editor.TilesKept
import Trigger.Editor.Strings
import Trigger.Foundation.Histories
import Trigger.Engine.Playing
import Trigger.Network.Clients
import Trigger.Network.Doors
import Trigger.Foundation.Keeping
import Trigger.Config.Allocation
import Trigger.Editor.Window
import Trigger.Editor.View
import Trigger.Editor.Frames
import Trigger.Editor.Painting
