import ImportAtlas.Canvas.Color
import ImportAtlas.Canvas.Paint
import ImportAtlas.Canvas.Rect
import ImportAtlas.CommandLine.Arguments
import ImportAtlas.CommandLine.Decimal
import ImportAtlas.CommandLine.Run
import ImportAtlas.Disk.Basic
import ImportAtlas.Disk.Project
import ImportAtlas.Distinct
import ImportAtlas.Geometry.Single
import ImportAtlas.Geometry.Vec
import ImportAtlas.Graph.Basic
import ImportAtlas.Graph.Folder
import ImportAtlas.Graph.Grouping
import ImportAtlas.Hash.Scatter
import ImportAtlas.Hash.Sip
import ImportAtlas.Imports.Lexer
import ImportAtlas.Imports.Scan
import ImportAtlas.Imports.Token
import ImportAtlas.Json.Container
import ImportAtlas.Json.Number
import ImportAtlas.Json.Problem
import ImportAtlas.Json.Reader
import ImportAtlas.Json.Scalar
import ImportAtlas.Json.Text
import ImportAtlas.Json.Tree
import ImportAtlas.Layout.Basic
import ImportAtlas.Layout.Force
import ImportAtlas.Layout.Motion
import ImportAtlas.Layout.Quadtree
import ImportAtlas.Log
import ImportAtlas.Main
import ImportAtlas.Origin
import ImportAtlas.Payload.Print
import ImportAtlas.Payload.Read
import ImportAtlas.Proofs.Canvas.Culling
import ImportAtlas.Proofs.Graph.Borders
import ImportAtlas.Proofs.Graph.Groups
import ImportAtlas.Proofs.Grouping.History
import ImportAtlas.Proofs.Grouping.Partition
import ImportAtlas.Proofs.Grouping.Quotient
import ImportAtlas.Proofs.Grouping.Soundness
import ImportAtlas.Proofs.Grouping.Unfolding
import ImportAtlas.Proofs.Grouping.Uniqueness
import ImportAtlas.Proofs.Imports.Scanning
import ImportAtlas.Proofs.Layout.Bounds
import ImportAtlas.Proofs.Layout.Sweep
import ImportAtlas.Proofs.Layout.Ticks
import ImportAtlas.Proofs.Payload.Extending
import ImportAtlas.Proofs.Payload.Format
import ImportAtlas.Proofs.Session.Intents
import ImportAtlas.Proofs.Session.Pinning
import ImportAtlas.Proofs.Session.Restoring
import ImportAtlas.Proofs.Session.Seeding
import ImportAtlas.Proofs.Trace.Admission
import ImportAtlas.Proofs.Trace.Options
import ImportAtlas.Proofs.Trace.Order
import ImportAtlas.Proofs.Viewer.Dragging
import ImportAtlas.Proofs.Viewer.Searching
import ImportAtlas.Proofs.Viewer.Stages
import ImportAtlas.Proofs.Window.Loading
import ImportAtlas.Proofs.Window.Selecting
import ImportAtlas.Segments
import ImportAtlas.Session.Basic
import ImportAtlas.Session.Engine
import ImportAtlas.Text.Blank
import ImportAtlas.Trace.Target
import ImportAtlas.Trace.Walk
import ImportAtlas.Viewer.Basic
import ImportAtlas.Viewer.Frame
import ImportAtlas.Viewer.Pointer
import ImportAtlas.Viewer.Scene
import ImportAtlas.Window.Basic
import ImportAtlas.Window.Knob
import ImportAtlas.Window.Panel
