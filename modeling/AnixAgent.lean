import AnixAgent.Stream.Independence
import AnixAgent.ReportSpool.Recovery
import AnixAgent.Reports.Replay
import AnixAgent.Users.Mirror
import AnixAgent.Users.Pages
import AnixAgent.NodePlane.ServedUsers
import AnixAgent.Configs.Statuses
import AnixAgent.Maintenance.Delivery
import AnixAgent.Plugins.Recovery
import AnixAgent.Plugins.Deferrals
import AnixAgent.Controller.Starts
import AnixAgent.Cores.Selection
import AnixAgent.Tasks.Periodic
import AnixAgent.Upgrade.Requests
import AnixAgent.WireGuard.Rollbacks
import AnixAgent.WireGuard.Traffic
import AnixAgent.Network.Applications
import AnixAgent.NetworkRoute.Reconciliation
import AnixAgent.Controller.TrafficReports
import AnixAgent.AnxServer.Status
import AnixAgent.Kernelfwd.Manager
import AnixAgent.Anxline.Monitor
import AnixAgent.Forward.Diagnose
import AnixAgent.Forward.Reports
import AnixAgent.Forward.Sessions
import AnixAgent.Forward.States
import AnixAgent.Artifacts.Download
import AnixAgent.AgentState.Store
import AnixAgent.Configs.Delivery
import AnixAgent.Plugins.FailedWrites
import AnixAgent.Alive.Lists
import AnixAgent.Maintenance.Outbox
import AnixAgent.Cores.Users
import AnixAgent.Kernelfwd.Balancing
import AnixAgent.Upgrade.Flights
import AnixAgent.Kernelfwd.Counters
import AnixAgent.Plugins.Gate
import AnixAgent.Reports.LogHook
