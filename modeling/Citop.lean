import Citop.Go
import Citop.Cache.Status
import Citop.Cache.Store
import Citop.Cache.WriteLog
import Citop.Cache.Update
import Citop.Rows.Row
import Citop.Rows.Tree
import Citop.Rows.Fetch
import Citop.Rows.Mirror
import Citop.Rows.View
import Citop.Rows.Visible
import Citop.Rows.Select
import Citop.Rows.Search
import Citop.Rows.Session
import Citop.Rows.Window
import Citop.Rows.Export
import Citop.Rows.Flags
import Citop.Rows.Anchor
import Citop.Pusher.Client
import Citop.Pusher.Session
