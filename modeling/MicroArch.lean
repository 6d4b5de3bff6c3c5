import MicroArch.Library.Window
import MicroArch.Tomasulo.Execution
import MicroArch.Tomasulo.Chunks
import MicroArch.Tomasulo.Arbitration
import MicroArch.Tomasulo.Values
import MicroArch.Tomasulo.Cycles
import MicroArch.Library.CArray
import MicroArch.Predictor.Tables
import MicroArch.Predictor.Tage
import MicroArch.Predictor.Range
import MicroArch.Predictor.Provider
import MicroArch.Predictor.Training
import MicroArch.Predictor.History
import MicroArch.Predictor.Selection
import MicroArch.Predictor.Horizon
import MicroArch.Predictor.Frame
import MicroArch.Predictor.Bounds
import MicroArch.Predictor.Aliasing
import MicroArch.Predictor.TwoLevel
import MicroArch.Library.Counters
import MicroArch.Predictor.Bimodal
import MicroArch.Predictor.Main
import MicroArch.Cache.Geometry
import MicroArch.Library.Linked
import MicroArch.Cache.Blocks
import MicroArch.Library.Ends
import MicroArch.Library.Traced
import MicroArch.Cache.Coherence
import MicroArch.Cache.Residency
import MicroArch.Cache.Replacement
import MicroArch.Cache.Represent
import MicroArch.Cache.Effect
import MicroArch.Cache.Delta
import MicroArch.Cache.Surround
import MicroArch.Cache.Stride
import MicroArch.Cache.System
import MicroArch.Cache.Interference
import MicroArch.Cache.Middle
import MicroArch.Cache.Sharing
import MicroArch.Cache.History
import MicroArch.Cache.Statistics
import MicroArch.Cache.Crowding
import MicroArch.Cache.Survival
import MicroArch.Cache.Stops
import MicroArch.Cache.Latency
import MicroArch.Cache.Convergence
import MicroArch.Cache.Recorded
import MicroArch.Cache.Levels
import MicroArch.Cache.Traffic
import MicroArch.Library.Footprint
import MicroArch.Memory.Copies
import MicroArch.Pisa.Arithmetic
import MicroArch.Pisa.Declared
import MicroArch.Pisa.Leaks
import MicroArch.Pisa.Unaligned
import MicroArch.Pisa.Replay
import MicroArch.Library.Watched
import MicroArch.SimCache.Counts
import MicroArch.Library.Related
import MicroArch.Pisa.Beside
import MicroArch.SimCache.Aligned
