import BasicDataStruct.RbTree.Height
import BasicDataStruct.RbTree.Comparison
import BasicDataStruct.Dijkstra.Correctness
import BasicDataStruct.Btree.HuffmanSums
import BasicDataStruct.LinkedList.Detect
import BasicDataStruct.Btree.Malformed
import BasicDataStruct.Telnet.Forever
import BasicDataStruct.Telnet.Termtype
import BasicDataStruct.Ipv6RuleMatch.Verdict
import BasicDataStruct.Thread.Progress
import BasicDataStruct.Download.Checkpoint
import BasicDataStruct.Springsnail.Drain
import BasicDataStruct.Springsnail.Pools
import BasicDataStruct.Springsnail.BusyRatio
import BasicDataStruct.Springsnail.Dispatch
import BasicDataStruct.Http.Agreement
import BasicDataStruct.Timer.WheelHistory
import BasicDataStruct.Timer.TimeHeapHistory
import BasicDataStruct.ShmTalk.Segments
import BasicDataStruct.LinearList.Insert
import BasicDataStruct.Download.Split
import BasicDataStruct.LinkedList.CreatList
import BasicDataStruct.ConfFile.Isolation
import BasicDataStruct.Telnet.ScriptModes
import BasicDataStruct.Telnet.Synch
import BasicDataStruct.Download.ReadBack
import BasicDataStruct.Download.JoinUrl
import BasicDataStruct.Libc.StrToInt
import BasicDataStruct.Ping.Checksum
import BasicDataStruct.CProgLang.Getint
import BasicDataStruct.LinuxCop.Maze
import BasicDataStruct.Http.Indices
import BasicDataStruct.Thread.QueueBound
import BasicDataStruct.RbTree.RotateBack
import BasicDataStruct.ConfFile.Trim
import BasicDataStruct.Timer.NonactiveConn
import BasicDataStruct.WebServer.Refusal
import BasicDataStruct.Modbus.Faults
import BasicDataStruct.Modbus.Registers
