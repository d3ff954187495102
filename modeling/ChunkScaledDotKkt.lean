import ChunkScaledDotKkt.Cube.Hazards
import ChunkScaledDotKkt.Harness.BFloat16
import ChunkScaledDotKkt.Harness.CaseRun
import ChunkScaledDotKkt.Trace.Multicore
import ChunkScaledDotKkt.Trace.Overlap
import ChunkScaledDotKkt.Vector.ExpRange
import ChunkScaledDotKkt.Vector.FusedPair
import ChunkScaledDotKkt.Vector.HeadTile
