import Mybox.OrderedMap
import Mybox.LineText
import Mybox.ListedWords
import Mybox.Runs
import Mybox.Php
import Mybox.RegistryFormat
import Mybox.Registry
import Mybox.RegistryText
import Mybox.RegistryFaithful
import Mybox.RegistryStore
import Mybox.Definitions
import Mybox.References
import Mybox.Deletion
import Mybox.Lookups
import Mybox.GroupTree
import Mybox.Groups
import Mybox.PacketFilter
import Mybox.PolicyRules
import Mybox.MarkChain
import Mybox.PolicyRoutes
import Mybox.UnresolvedNames
import Mybox.Commands
import Mybox.Rewriting
import Mybox.AliasParents
import Mybox.AliasRuns
import Mybox.UniqueNames
import Mybox.CacheCoherence
import Mybox.CallSteps
import Mybox.LostUpdates
import Mybox.StaleCache
import Mybox.Lockout
import Mybox.Patterns
import Mybox.SshLog
import Mybox.NameLookup
import Mybox.FilterChain
import Mybox.AdminAccess
import Mybox.Decimal
import Mybox.DerivedFields
import Mybox.Updates
import Mybox.Uplink
import Mybox.Watchdog
import Mybox.NetworkStart
import Mybox.DefinitionHandlers
import Mybox.InterfaceIdentity
import Mybox.PolicyDirection
import Mybox.SessionExpiry
import Mybox.ObjectFrame
import Mybox.CliArguments
import Mybox.DeviceLists
import Mybox.NumberedRows
import Mybox.RuleOrder
import Mybox.Stdio
import Mybox.UplinkSet
import Mybox.NetCalc
import Mybox.PolicyTables
import Mybox.TimedRules
import Mybox.AccessAccounts
import Mybox.NegatedMatches
import Mybox.Columns
import Mybox.DefinitionArrays
import Mybox.FilterRows
import Mybox.ResourceIds
import Mybox.StoredObjects
import Mybox.IpArithmetic
import Mybox.Inodes
import Mybox.TaskFiles
import Mybox.CommandQueue
import Mybox.Mirror
import Mybox.Portal
import Mybox.PortalNames
import Mybox.PortalSessions
import Mybox.PortalRules
import Mybox.PortalRequests
import Mybox.Climb
import Mybox.FirmwareUpdate
import Mybox.AdminPolicy
import Mybox.AdminVerdicts
import Mybox.DefinitionRefs
import Mybox.DefinitionRename
import Mybox.DefinitionDelete
import Mybox.Base64
import Mybox.PppoePassword
import Mybox.PasswordFile
import Mybox.RefusedCalls
import Mybox.PolicyAdd
import Mybox.Masks
import Mybox.HostRange
import Mybox.PreciseRemoval
import Mybox.StaticRoutes
import Mybox.AclList
import Mybox.LoadableRules
import Mybox.Glob
import Mybox.Calendar
import Mybox.DefaultGateway
import Mybox.DeleteLists
import Mybox.DhcpCommands
import Mybox.DhcpConfig
import Mybox.HttpSessions
import Mybox.IdleTime
import Mybox.Reservations
import Mybox.SessionFiles
import Mybox.ShownIds
import Mybox.CStrings
import Mybox.MakeDirs
import Mybox.StorageShell
import Mybox.Backups
import Mybox.ServiceCheck
import Mybox.EntryPasses
import Mybox.NicDiscovery
import Mybox.HostRefresh
import Mybox.StorageViewer
import Mybox.NatRows
import Mybox.Spool
import Mybox.AlertQueue
import Mybox.AlertLimit
import Mybox.TimeMatches
import Mybox.RuleTables
import Mybox.BlacklistRules
import Mybox.FloodRules
import Mybox.SettingsBackup
import Mybox.BackupRestore
import Mybox.MarkRoutes
import Mybox.ShaperClasses
import Mybox.ShellText
import Mybox.LinkTree
import Mybox.RestrictedShell
import Mybox.AddressChecks
import Mybox.LogRotation
import Mybox.ProxyConfig
import Mybox.AccessNetworks
import Mybox.Chains
import Mybox.AliasChains
import Mybox.DhcpLeases
import Mybox.LcdScreens
import Mybox.Xmkdir
import Mybox.DeleteDirs
import Mybox.SyslogConfig
