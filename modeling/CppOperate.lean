import CppOperate.StepRuns
import CppOperate.CLoops
import CppOperate.RowMajor
import CppOperate.StitchGrid
import CppOperate.StitchSearch
import CppOperate.StitchGeometry
import CppOperate.StitchFrames
import CppOperate.StitchRequests
import CppOperate.ParamsFile
import CppOperate.StitchLifecycle
import CppOperate.DoubleCheckedInit
import CppOperate.StitchConfigRace
import CppOperate.StitchBuffer
import CppOperate.DriverDoubleBuffer
import CppOperate.PoolModel
import CppOperate.PoolWakeup
import CppOperate.PoolTasks
import CppOperate.CStrings
import CppOperate.DriverCopy
import CppOperate.TestPicture
import CppOperate.DriverPlacement
import CppOperate.DriverPlane
import CppOperate.ScreenMemory
import CppOperate.DriverLifecycle
import CppOperate.DrmPlanes
import CppOperate.ParamsCrash
import CppOperate.QueueWorkers
import CppOperate.MessageQueue
import CppOperate.ShmHandshake
import CppOperate.ShmInterrupted
import CppOperate.ShmReaders
import CppOperate.ShmLoopExit
import CppOperate.ShmSystemV
import CppOperate.LogQueue
import CppOperate.LogOutput
import CppOperate.MqttOverrun
import CppOperate.MqttPacketRead
import CppOperate.MqttSend
import CppOperate.MqttDelivery
import CppOperate.MqttConnecting
