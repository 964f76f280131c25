import FakeBigLittle.Runs
import FakeBigLittle.Slots
import FakeBigLittle.Bpf.Spec
import FakeBigLittle.Bpf.Proofs
import FakeBigLittle.Kernel.Spec
import FakeBigLittle.Kernel.Proofs
import FakeBigLittle.Fifo
import FakeBigLittle.Kernel.Placement
import FakeBigLittle.Kernel.Isolation
import FakeBigLittle.Kernel.Stranding
import FakeBigLittle.Kernel.Conservation
import FakeBigLittle.Kernel.Starvation
import FakeBigLittle.Kernel.CommRules
import FakeBigLittle.Kernel.Flat
import FakeBigLittle.CString
import FakeBigLittle.Loader.Spec
import FakeBigLittle.Loader.Epp
import FakeBigLittle.Loader.Options
import FakeBigLittle.Bench.Spec
import FakeBigLittle.Bench.CommandLine
import FakeBigLittle.Loader.Attach
import FakeBigLittle.Kernel.FlatControl
import FakeBigLittle.Bench.FlatArm
import FakeBigLittle.Bench.E3
import FakeBigLittle.Bench.Coverage
import FakeBigLittle.Loader.Rules
import FakeBigLittle.Ewma
import FakeBigLittle.Kernel.Adaptive
import FakeBigLittle.Loader.Smt
import FakeBigLittle.Loader.SmtArrays
import FakeBigLittle.Bench.Partition
import FakeBigLittle.Spin.Proofs
import FakeBigLittle.Energy.Rapl
import FakeBigLittle.Energy.Series
import FakeBigLittle.Piecewise
import FakeBigLittle.Rail.Spec
import FakeBigLittle.Csv
import FakeBigLittle.Rail.Frequency
import FakeBigLittle.Rail.Power
import FakeBigLittle.Gauss
import FakeBigLittle.Rail.Calibrate
import FakeBigLittle.Analyze.Headline
import FakeBigLittle.Json.Proofs
import FakeBigLittle.Printf
import FakeBigLittle.Bench.Collect
import FakeBigLittle.Energy.Summary
import FakeBigLittle.Energy.Domains
import FakeBigLittle.Means
import FakeBigLittle.Energy.Averages
import FakeBigLittle.Json.Braces
import FakeBigLittle.Bench.Records
import FakeBigLittle.Spin.Main
import FakeBigLittle.Bench.FixedLoad
import FakeBigLittle.Bench.Applied
import FakeBigLittle.Bench.Leftover
import FakeBigLittle.Bench.Wire
import FakeBigLittle.Kernel.Counters
import FakeBigLittle.Kernel.RunTime
import FakeBigLittle.Kernel.Hysteresis
import FakeBigLittle.Kernel.IdlePick
import FakeBigLittle.Analyze.CrossShare
import FakeBigLittle.Loader.Readback
import FakeBigLittle.Loader.NoEpp
import FakeBigLittle.Bisect
import FakeBigLittle.Rail.Sweep
import FakeBigLittle.Rail.PowerCap
import FakeBigLittle.Rail.Charged
import FakeBigLittle.Rail.Tax
import FakeBigLittle.Dict
import FakeBigLittle.Analyze.Stats
import FakeBigLittle.Analyze.FileOrder
import FakeBigLittle.Analyze.Resample
import FakeBigLittle.Analyze.Gates
import FakeBigLittle.Kernel.RemoteStop
import FakeBigLittle.Quantile
import FakeBigLittle.Analyze.Percentile
import FakeBigLittle.Analyze.Bootstrap
import FakeBigLittle.Ranks
import FakeBigLittle.Analyze.Ranks
import FakeBigLittle.Analyze.Wording
import FakeBigLittle.Analyze.Domains
import FakeBigLittle.Rail.Clamped
import FakeBigLittle.Rail.Marginal
import FakeBigLittle.Bench.Plan
import FakeBigLittle.Workload.Spec
import FakeBigLittle.Workload.Proofs
import FakeBigLittle.Kernel.Strict
import FakeBigLittle.Json.Dumps
import FakeBigLittle.Json.Strings
import FakeBigLittle.Json.RoundTrip
import FakeBigLittle.Loader.Report
import FakeBigLittle.Bench.RunFile
import FakeBigLittle.Analyze.Counters
import FakeBigLittle.CsvText
import FakeBigLittle.Rail.CsvFile
import FakeBigLittle.Analyze.Sanitize
import FakeBigLittle.Analyze.WriteCsv
import FakeBigLittle.Bench.Session
import FakeBigLittle.Rail.Summary
import FakeBigLittle.Argmin
import FakeBigLittle.Rail.Crossover
import FakeBigLittle.Analyze.Units
import FakeBigLittle.Pinger.Schedule
import FakeBigLittle.PipeTable
import FakeBigLittle.Analyze.Table
