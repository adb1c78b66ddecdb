import ItemFlow.Overflow
import ItemFlow.Text.Decimal
import ItemFlow.Text.Shortest
import ItemFlow.Item.Kind
import ItemFlow.Item.Stack
import ItemFlow.Space.Face
import ItemFlow.Space.Pos
import ItemFlow.Json.Value
import ItemFlow.Json.Write
import ItemFlow.Json.Read
import ItemFlow.Item.Smelting
import ItemFlow.Inventory.Basic
import ItemFlow.Field.Basic
import ItemFlow.Field.Stack
import ItemFlow.Field.Json
import ItemFlow.Viewer.Registry
import ItemFlow.Block.Basic
import ItemFlow.World.BlockMap
import ItemFlow.World.Realm
import ItemFlow.Block.Furnace
import ItemFlow.Block.Hopper
import ItemFlow.Block.Fields
import ItemFlow.World.Tick
import ItemFlow.Save.Record
import ItemFlow.World.Script
import ItemFlow.Save.RecordJson
import ItemFlow.Bytes
import ItemFlow.Checksum.Crc32
import ItemFlow.Checksum.Xxh64
import ItemFlow.Compress.Error
import ItemFlow.Compress.BackBits
import ItemFlow.Compress.Fse
import ItemFlow.Compress.Huffman
import ItemFlow.Compress.Sequences
import ItemFlow.Compress.Block
import ItemFlow.Compress.Frame
import ItemFlow.Save.Binary
import ItemFlow.Save.File
import ItemFlow.Files.Basic
import ItemFlow.Files.Tree
import ItemFlow.Failure
import ItemFlow.Save.Store
import ItemFlow.Toml.Value
import ItemFlow.Toml.Read
import ItemFlow.Toml.Write
import ItemFlow.Layout.Config
import ItemFlow.Layout.Run
import ItemFlow.Text.Similarity
import ItemFlow.Cli.Args
import ItemFlow.Cli.Run
import ItemFlow.Snapshot.Golden
import ItemFlow.Snapshot.Worldtest
import ItemFlow.Text.Visible
import ItemFlow.Block.Describe
import ItemFlow.Main
import ItemFlow.Proofs.Act
import ItemFlow.Proofs.Tick.Invariant
import ItemFlow.Proofs.Inventory.Valid
import ItemFlow.Proofs.Inventory.Units
import ItemFlow.Proofs.Tick.Conservation
import ItemFlow.Proofs.Tick.Cooldown
import ItemFlow.Proofs.Save.Alike
import ItemFlow.Proofs.Save.Codec
import ItemFlow.Proofs.Save.Restore
import ItemFlow.Proofs.Save.Transparent
import ItemFlow.Proofs.Inventory.Mirror
import ItemFlow.Proofs.Tick.FurnaceSlots
import ItemFlow.Proofs.Tick.Frame
import ItemFlow.Proofs.Tick.NoTrap
import ItemFlow.Proofs.Tick.Transfer
import ItemFlow.Proofs.Tick.HopperTick
import ItemFlow.Proofs.Inventory.Greedy
import ItemFlow.Proofs.Tick.Smelting
import ItemFlow.Proofs.Viewer.Registrations
import ItemFlow.Proofs.Item.Keys
import ItemFlow.Proofs.Viewer.Reload
import ItemFlow.Proofs.Save.Framing
import ItemFlow.Proofs.Inventory.Stock
import ItemFlow.Proofs.Layout.ChestTicks
import ItemFlow.Proofs.Layout.ChestRun
import ItemFlow.Proofs.Snapshot.LineDiff
