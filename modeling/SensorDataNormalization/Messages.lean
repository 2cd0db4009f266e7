import SensorDataNormalization.PcapSplit

set_option autoImplicit false

/-! What passes between the processes: storage files as jobs, and the messages that a
worker puts in the mailbox of the manager. `Job.cycle`, `Job.index` and `PairPut.source`
are not in the messages: they record where a job and a piece come from. -/
namespace SensorDataNormalization.Messages
open PythonText PcapRecords PcapSplit StoreProgram

structure StorageFile where
  filePath : Str
  fileName : Str
  isDir : Bool
  deriving DecidableEq

structure Job where
  cycle : ℕ
  index : ℕ
  file : StorageFile
  deriving DecidableEq

structure UnprocessedPcap where
  srcPath : Str
  outFilePath : Str
  prefixPath : Str
  deriving DecidableEq

structure Source where
  job : Job
  piece : SplitedPcap
  deriving DecidableEq

structure PairPut where
  source : Source
  pairKey : Str
  item : UnprocessedPcap
  deriving DecidableEq

/-- A body in the mailbox: a message of a worker, a message of another class, or a body
that does not decode. -/
inductive Body
  | jobDone (job : Job) (success : Bool)
  | pairPut (put : PairPut)
  | unexpected
  | undecodable
  deriving DecidableEq

/-- The object that an upload writes, and the pieces that it holds. -/
structure Destination where
  key : Str
  sources : List Source
  deriving DecidableEq

abbrev WorkOp := Op Str Bytes Destination PairPut
abbrev Program := List WorkOp

end SensorDataNormalization.Messages
