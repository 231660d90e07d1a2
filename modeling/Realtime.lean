import Realtime.Epoch.Retry
import Realtime.Epoch.SwitchSafe
import Realtime.Access.Visibility
import Realtime.Jobs.Queue
import Realtime.Mux.Delivery
import Realtime.Storage.RepairSafe
import Realtime.Structured.CanvasAgree
import Realtime.Structured.ReconcilersAgree
import Realtime.Structured.MergeSymmetric
import Realtime.Document.WriteThrough
import Realtime.Text.Startup
import Realtime.PluginDb.Chain
import Realtime.Rollback.Target
import Realtime.PluginDb.Compaction
import Realtime.PluginDb.Rebase
import Realtime.PluginDb.Passes
import Realtime.Vault.BootstrapPlan
import Realtime.Vault.RemoteDeleteSafe
import Realtime.Vault.LostPublish
import Realtime.Sync.ReadOnly
import Realtime.Sync.Saved
import Realtime.Sync.StaysPending
import Realtime.Git.Recorded
import Realtime.Sync.FastPath
import Realtime.Text.ApplyText
import Realtime.Structured.Contains
import Realtime.Structured.CanvasReconcile
import Realtime.Structured.CanvasText
import Realtime.Vault.Acknowledged
import Realtime.Mux.Opens
import Realtime.Vault.Trash
import Realtime.PluginDb.DocId
import Realtime.Rollback.SingleFile
import Realtime.Rollback.Refused
import Realtime.PluginDb.Values
import Realtime.PluginDb.SqlNames
import Realtime.PluginDb.Schema
import Realtime.PluginDb.DumpRollback
import Realtime.Vault.Lineage
import Realtime.PluginDb.Split
import Realtime.Structured.TextSplice
import Realtime.Notes.Edits
import Realtime.Vault.NoStranded
import Realtime.PluginDb.Published
import Realtime.Cli.Converge
import Realtime.Backup.RestoreAtomic
