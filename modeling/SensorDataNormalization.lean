import SensorDataNormalization.PcapMerge
import SensorDataNormalization.SystemSteps
import SensorDataNormalization.CycleAccounting
import SensorDataNormalization.PairLedger
import SensorDataNormalization.DrainQuiescence
import SensorDataNormalization.CycleIsolation
import SensorDataNormalization.NotificationSoundness
import SensorDataNormalization.RawFiles
import SensorDataNormalization.BatchOwnership
import SensorDataNormalization.PieceFlow
import SensorDataNormalization.UploadKeys
import SensorDataNormalization.PieceContents
import SensorDataNormalization.SecondObjects
import SensorDataNormalization.PacketConservation
import SensorDataNormalization.WorkFiles
import SensorDataNormalization.CaptureOrder
import SensorDataNormalization.DateBoundary
import SensorDataNormalization.JsonMessages
import SensorDataNormalization.RequestListener
import SensorDataNormalization.PairHistory
import SensorDataNormalization.SecondPartition
import SensorDataNormalization.DeviceSelection
import SensorDataNormalization.PieceNames
import SensorDataNormalization.NameCollisions
import SensorDataNormalization.NameParsing
import SensorDataNormalization.MessageCodec
import SensorDataNormalization.PacketBodies
import SensorDataNormalization.PcapReader
import SensorDataNormalization.StoreAttempts
import SensorDataNormalization.WorkerJob
import SensorDataNormalization.BodyDispatch
import SensorDataNormalization.MultiReader
import SensorDataNormalization.PacketFrames
import SensorDataNormalization.VehicleSelection
import SensorDataNormalization.PieceKeys
import SensorDataNormalization.SplitSource
import SensorDataNormalization.LocalFiles
import SensorDataNormalization.CleanCycle
import SensorDataNormalization.CycleProgress
import SensorDataNormalization.Shutdown
import SensorDataNormalization.StoreTyping
import SensorDataNormalization.StreamIntegrity
import SensorDataNormalization.RequestQueue
import SensorDataNormalization.CaptureReplay
import SensorDataNormalization.RetryHeals
import SensorDataNormalization.FailureIsolation
import SensorDataNormalization.RawUpload
import SensorDataNormalization.RecordedDay
