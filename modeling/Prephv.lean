import Prephv.Lib.Words
import Prephv.Lib.GroupTable
import Prephv.Lib.SafeList
import Prephv.Lib.Power
import Prephv.Lib.Intervals
import Prephv.Lib.Forest
import Prephv.Lib.Transducer
import Prephv.Lib.Fuel
import Prephv.Lib.Forms
import Prephv.Lib.Cache
import Prephv.Defs
import Prephv.Guest.State
import Prephv.Mmu.Model
import Prephv.Mmu.Pages
import Prephv.Mmu.Pte
import Prephv.Mmu.Ea
import Prephv.Mmu.Refine
import Prephv.Mmu.Slb
import Prephv.Guest.Update
import Prephv.Guest.Segments
import Prephv.Mmu.Boot
import Prephv.Mmu.Leaves
import Prephv.Mmu.Room
import Prephv.Mmu.Unique
import Prephv.Mmu.Slots
import Prephv.Mmu.MapsTo
import Prephv.Mmu.Spill
import Prephv.Mmu.Hash
import Prephv.Guest.Views
import Prephv.Guest.Trap
import Prephv.Guest.Sprs
import Prephv.Guest.Emulate
import Prephv.Mem.Ranges
import Prephv.Mem.Difference
import Prephv.Mem.Pages
import Prephv.Mem.Fit
import Prephv.Mem.Heap
import Prephv.Mem.Init
import Prephv.Fdt.Model
import Prephv.Fdt.Nodes
import Prephv.Fdt.Tree
import Prephv.Fdt.Relatives
import Prephv.Rom.Confine
import Prephv.Rom.Disk
import Prephv.Rom.Claim
import Prephv.Rom.Taken
import Prephv.Rom.Walk
import Prephv.Rom.Getprop
import Prephv.Rom.Console
import Prephv.Rom.Media
import Prephv.Rom.Read
import Prephv.Rom.Map
import Prephv.Mem.Set
import Prephv.Time.Model
import Prephv.Time.Quiet
import Prephv.Time.Nested
import Prephv.Time.Heartbeat
import Prephv.Exc.Model
import Prephv.Exc.Transparent
import Prephv.Fat.Volume
import Prephv.Fat.Access
import Prephv.Fat.File
import Prephv.Fat.Runs
import Prephv.Fat.Names
import Prephv.Fat.Directory
import Prephv.Fat.Listing
import Prephv.Fat.Open
import Prephv.Fat.Session
import Prephv.Lib.Window
import Prephv.Fmt.Digits
import Prephv.Fmt.Number
import Prephv.Fmt.Parse
