import ZbkcTasks.AdminSocket
import ZbkcTasks.BenchSweep
import ZbkcTasks.BuildUpgrade
import ZbkcTasks.ClockSkew
import ZbkcTasks.ClusterDevs
import ZbkcTasks.ClusterLog
import ZbkcTasks.Devstack
import ZbkcTasks.EraseObjects
import ZbkcTasks.FuseConn
import ZbkcTasks.FuseTeardown
import ZbkcTasks.InconsistentObj
import ZbkcTasks.LogStream
import ZbkcTasks.LogVerdict
import ZbkcTasks.ManagerTimeout
import ZbkcTasks.ManyPools
import ZbkcTasks.MdsActive
import ZbkcTasks.MdsRevive
import ZbkcTasks.MdsStatus
import ZbkcTasks.MdsWeights
import ZbkcTasks.MonMany
import ZbkcTasks.MonSeesaw
import ZbkcTasks.MountTasks
import ZbkcTasks.ObjectAttrs
import ZbkcTasks.ObjectTool
import ZbkcTasks.OsdScrub
import ZbkcTasks.OsdStatus
import ZbkcTasks.PgMissing
import ZbkcTasks.PgScrub
import ZbkcTasks.PoolSnaps
import ZbkcTasks.PurgeThrottle
import ZbkcTasks.QemuNfs
import ZbkcTasks.RadosBench
import ZbkcTasks.RbdFioTask
import ZbkcTasks.RecoverySamples
import ZbkcTasks.Restart
import ZbkcTasks.RgwApache
import ZbkcTasks.RgwConf
import ZbkcTasks.S3Regions
import ZbkcTasks.TestRunner
import ZbkcTasks.TestWaits
import ZbkcTasks.ThrasherGrow
import ZbkcTasks.ThrasherMinIn
import ZbkcTasks.ThrasherMinSize
import ZbkcTasks.ThrasherPause
import ZbkcTasks.ThrasherPgMove
import ZbkcTasks.ThrasherRestore
import ZbkcTasks.ThrasherSchedule
import ZbkcTasks.ThrasherSighup
import ZbkcTasks.ThrasherThresholds
import ZbkcTasks.VstartDaemon
import ZbkcTasks.VstartEdits
import ZbkcTasks.VstartFilter
import ZbkcTasks.VstartProcess
import ZbkcTasks.WorkunitTidy
