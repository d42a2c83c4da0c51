import MyCub.Interleaving
import MyCub.MutexDiscipline
import MyCub.NuttxJoint
import MyCub.NuttxJointEffects
import MyCub.NuttxGoalDelivery
import MyCub.NuttxSyncMotion
import MyCub.NuttxInterface
import MyCub.NuttxLifecycle
import MyCub.NuttxInterfaceRuns
import MyCub.NuttxSettling
import MyCub.NuttxStopping
import MyCub.BoardController
import MyCub.BoardLatestGoal
import MyCub.LappingQueue
import MyCub.UartMonitor
import MyCub.DecimalText
import MyCub.UartText
import MyCub.BoardCommand
import MyCub.BoardDispatch
import MyCub.HostCommand
import MyCub.HostBoardLink
import MyCub.HostSerial
import MyCub.HostReplies
import MyCub.BoardServos
import MyCub.NuttxContext
import MyCub.NxThread
import MyCub.NxThreadRuns
import MyCub.NxThreadSuspend
import MyCub.Walker
import MyCub.CText
import MyCub.SonarText
import MyCub.CharDevice
import MyCub.Drivers
import MyCub.Gaze
import MyCub.GazeTurns
import MyCub.ShellParse
import MyCub.Shell
import MyCub.ShellReplies
import MyCub.BoardParse
import MyCub.CScan
import MyCub.UartNumerals
import MyCub.UartHandler
import MyCub.UartLines
import MyCub.BoardMotion
import MyCub.NuttxMotion
import MyCub.BoardSonar
import MyCub.SonarBuffer
import MyCub.SonarPulse
import MyCub.I2cMaster
import MyCub.I2cTransfer
import MyCub.I2cTransactions
import MyCub.I2cRelease
import MyCub.AdcAcquisition
import MyCub.ShellRows
import MyCub.ShellMotion
import MyCub.DecimalPoint
import MyCub.ShellNumbers
import MyCub.GazeMotion
import MyCub.HostScaling
import MyCub.GazeMessages
import MyCub.DriverReferences
import MyCub.ServoPulse
import MyCub.UartDecoder
import MyCub.DisplayDaemon
import MyCub.HostBattery
import MyCub.DisplayInput
import MyCub.BatterySamples
import MyCub.Compass
import MyCub.GazeKinematics
import MyCub.SpeechCache
import MyCub.BusyWait
import MyCub.UartCodec
import MyCub.ServodRing
import MyCub.ServodWidths
import MyCub.ServodPulses
import MyCub.ServodCycles
import MyCub.CFormat
import MyCub.ServodCommands
import MyCub.ServodRequests
import MyCub.ServodProcess
import MyCub.ServodIdle
import MyCub.ServodRuns
import MyCub.FramedLines
import MyCub.ServodLines
import MyCub.GazeServos
import MyCub.RingScan
import MyCub.ServodShutdown
import MyCub.ServodPins
import MyCub.ServodMemory
